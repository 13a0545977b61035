import MiniSql.SelectInserted
import MiniSql.Where

/-!
# Selections

`ExecuteSelect` on the tree of a `select`. Where the conditions select the rows that satisfy
them, what is printed is these rows, with the columns that are asked for, in the order of the
row ids; without conditions it is the whole table in the order of the heap, if a scan of it
starts with a live row. Their number is right as long as the `int` that counts the cells can
count them all (`executeSelect_select`).

Here a cell is a field. `ExecuteSelect` on the pages of a table, which prints what `GetData`
makes of the fields, gives the cells of these fields (`executeSelect_printed`).
-/

namespace MiniSql.Parser

open MiniSql.Parser.SyntaxNode

/-! ## `ExecuteSelect` -/

/-- What `ExecuteSelect` gives to `PrintTable` and `PrintInfo`, with the fields in place of
their texts. -/
structure Selection where
  /-- `header` -/
  header : List StdString
  /-- `output_info` -/
  outputInfo : List (List Field)
  /-- `rows_num` -/
  rowsNum : Int32

variable {Key : Type}

/-- The loop over the columns, each of them with a loop over the rows. -/
def outputInfo (schema : Schema) (rows : List (List Field)) :
    List Column → Option (List (List Field))
  | [] => some []
  | column :: columns => do
    let colId ← schema.getColumnIndex column.name
    let cells ← rows.mapM (fun row => row[colId]?)
    return cells :: (← outputInfo schema rows columns)

/-- The elements of a `std::set`, in the order of its iterators. -/
def inOrder {α : Type} [LinearOrder α] (s : Finset α) : List α := s.sort (· ≤ ·)

/-- `rows_num`: an `int` that counts every cell, and is then divided by the number of
columns. It cannot count further than to `2^31 - 1`. -/
def rowsNum (info : List (List Field)) (columns : ℕ) : Option Int32 :=
  let cells := (info.map List.length).sum
  if cells < 2 ^ 31 ∧ columns ≠ 0 then some (Int32.ofNat (cells / columns)) else none

/-- The rows of a `select`: all that a scan comes to, or those that its conditions leave in the
context; nothing inside if these fail. -/
def selectedRows (cmp : Comparing Key) (t : TableInfo) (rounds : ℕ) (context : ExecuteContext) :
    SyntaxNode → Option (Option (List (RowId × List Field)))
  | .null => (t.scanned rounds).map some
  | .node _ _ child _ => do
    let (context, success) ← executeInternalNodeOn cmp t rounds child context
    if success then
      return some (← (inOrder context.internalResultRid).mapM t.rowAt)
    else return none

/-- `ExecuteSelect`, with the table found; nothing inside if it fails. -/
def executeSelect (cmp : Comparing Key) (t : TableInfo) (rounds : ℕ) (ast : SyntaxNode) :
    Option (Option Selection) := do
  let (context, success) ← executeInternalNodeOn cmp t rounds ast.child ⟨[], ∅⟩
  if success then
    match ← selectedRows cmp t rounds context ast.child.next.next with
    | none => return none
    | some rows =>
      let info ← outputInfo t.schema (rows.map Prod.snd) context.selectColumns
      return some ⟨context.selectColumns.map Column.name, info,
        ← rowsNum info context.selectColumns.length⟩
  else return none

/-! ## The columns -/

/-- The column of a name. -/
def columnNamed (schema : Schema) (n : StdString) : Option Column :=
  (schema.getColumnIndex n).bind (fun c => schema.columns[c]?)

/-- The columns that a `select` asks for, if there are all of them. -/
def askedColumns (schema : Schema) : Option (Series StdString) → Option (List Column)
  | none => some schema.columns
  | some names => names.toList.mapM (columnNamed schema)

/-- The field of a row in the column of a name. -/
def fieldNamed (schema : Schema) (row : List Field) (n : StdString) : Option Field :=
  (schema.getColumnIndex n).bind (fun c => row[c]?)

/-- **What a `select` gives** of rows: their fields in the columns that are asked for, column
by column, and their number. -/
structure Selection.Shows (schema : Schema) (columns : List Column) (rows : List (List Field))
    (selection : Selection) : Prop where
  header : selection.header = columns.map Column.name
  outputInfo : selection.outputInfo.map (List.map some) =
    columns.map (fun column => rows.map (fun row => fieldNamed schema row column.name))
  rowsNum : selection.rowsNum.toInt = rows.length

/-- The rows that are selected, in their order: without conditions all live rows, as the heap has
them, and else those that satisfy the conditions, by their row ids. -/
def Chosen (t : TableInfo) (meets : Comparison → List Field → Prop) :
    Option Conditions → List (RowId × List Field) → Prop
  | none, rows => rows = t.heap.rows
  | some cs, rows => rows.Pairwise (fun x y => x.1 < y.1) ∧
    ∀ x, x ∈ rows ↔ t.heap.live x.1 = some x.2 ∧ cs.Holds meets x.2

variable {cmp : Comparing Key} {t : TableInfo} {schema : Schema} {rounds : ℕ}
  {context : ExecuteContext}

/-- **A list of columns** is read up to the first unknown name. -/
theorem executeColumnList_cons (n : StdString) (names : List StdString) (selected : List Column) :
    executeColumnList schema (chain ((n :: names).map name)) selected =
      (columnNamed schema n).elim (some (selected, false)) (fun column =>
        executeColumnList schema (chain (names.map name)) (selected ++ [column])) := by
  have hnode : chain ((n :: names).map name) =
      .node .identifier (some n) .null (chain (names.map name)) := rfl
  rw [hnode, executeColumnList, Option.bind_eq_bind, Option.bind_some, columnNamed]
  cases hn : schema.getColumnIndex n with
  | none => rfl
  | some c =>
    obtain ⟨hlt, -⟩ := List.findIdx?_eq_some_iff_getElem.mp hn
    have hcolumn : schema.columns[c]? = some schema.columns[c] := List.getElem?_eq_getElem hlt
    dsimp only
    rw [Option.bind_some, hcolumn]
    rfl

theorem executeColumnList_chain (names : List StdString) (selected : List Column) :
    (∀ columns, names.mapM (columnNamed schema) = some columns →
      executeColumnList schema (chain (names.map name)) selected =
        some (selected ++ columns, true)) ∧
    (names.mapM (columnNamed schema) = none →
      ∃ columns, executeColumnList schema (chain (names.map name)) selected =
        some (columns, false)) := by
  induction names generalizing selected with
  | nil =>
    refine ⟨fun columns h => ?_, fun h => by cases h⟩
    cases h
    exact congrArg (fun l => some (l, true)) (List.append_nil selected).symm
  | cons n names ih =>
    rw [executeColumnList_cons, List.mapM_cons]
    cases columnNamed schema n with
    | none => exact ⟨fun _ h => (by cases h), fun _ => ⟨selected, rfl⟩⟩
    | some column =>
      obtain ⟨hfound, hunknown⟩ := ih (selected ++ [column])
      rw [Option.bind_eq_bind, Option.bind_some]
      constructor
      · intro columns h
        obtain ⟨rest, hrest, heq⟩ := Option.bind_eq_some_iff.mp h
        cases heq
        exact (hfound rest hrest).trans (by rw [List.append_assoc, List.singleton_append])
      · intro h
        refine hunknown (Option.eq_none_iff_forall_ne_some.mpr fun rest hrest => ?_)
        rw [hrest] at h
        cases h

/-- **The columns of a `select`** are left in the context, or one of them is unknown. -/
theorem executeInternalNode_columns (cmp : Comparing Key) (schema : Schema)
    (columns : Option (Series StdString)) :
    ∃ type val child, columnsPhrase.node columns = .node type val child .null ∧
      (∀ cols, askedColumns schema columns = some cols → ∀ table : ConditionTable,
        table.schema = schema → ∀ rounds next context,
          executeInternalNode cmp table rounds (.node type val child next) context =
            some ({ context with selectColumns := cols }, true)) ∧
      (askedColumns schema columns = none → ∀ table : ConditionTable,
        table.schema = schema → ∀ rounds next context, ∃ context',
          executeInternalNode cmp table rounds (.node type val child next) context =
            some (context', false)) := by
  cases columns with
  | none =>
    refine ⟨.allColumns, none, .null, rfl, ?_, fun h => by cases h⟩
    rintro cols ⟨⟩ table rfl rounds next context
    rfl
  | some names =>
    refine ⟨.columnList, some (text "select columns"), chain (names.toList.map name), rfl, ?_, ?_⟩
    · rintro cols hcols table rfl rounds next context
      have hlist : executeColumnList table.schema (chain (names.toList.map name)) [] =
          some (cols, true) := (executeColumnList_chain names.toList []).1 cols hcols
      change (executeColumnList table.schema (chain (names.toList.map name)) []).bind _ = _
      rw [hlist]
      rfl
    · rintro hnone table rfl rounds next context
      obtain ⟨cols, hlist⟩ : ∃ cols,
          executeColumnList table.schema (chain (names.toList.map name)) [] = some (cols, false) :=
        (executeColumnList_chain names.toList []).2 hnone
      refine ⟨{ context with selectColumns := cols }, ?_⟩
      change (executeColumnList table.schema (chain (names.toList.map name)) []).bind _ = _
      rw [hlist]
      rfl

theorem exists_mapM {α β : Type} {f : α → Option β} {l : List α}
    (h : ∀ x ∈ l, ∃ y, f x = some y) : ∃ ys, l.mapM f = some ys ∧ ys.map some = l.map f := by
  induction l with
  | nil => exact ⟨[], rfl, rfl⟩
  | cons x l ih =>
    obtain ⟨y, hy⟩ := h x List.mem_cons_self
    obtain ⟨ys, hys, heq⟩ := ih (fun x' hx' => h x' (List.mem_cons_of_mem _ hx'))
    refine ⟨y :: ys, ?_, ?_⟩
    · rw [List.mapM_cons, hy, hys]
      rfl
    · rw [List.map_cons, List.map_cons, heq, hy]

theorem exists_of_mem_mapM {α β : Type} {f : α → Option β} {l : List α} {ys : List β}
    (h : l.mapM f = some ys) {y : β} (hy : y ∈ ys) : ∃ x ∈ l, f x = some y := by
  induction l generalizing ys with
  | nil =>
    cases h
    cases hy
  | cons x l ih =>
    rw [List.mapM_cons] at h
    obtain ⟨y', hy', hrest⟩ := Option.bind_eq_some_iff.mp h
    obtain ⟨ys', hys', heq⟩ := Option.bind_eq_some_iff.mp hrest
    cases heq
    rcases List.mem_cons.mp hy with rfl | hy
    · exact ⟨x, List.mem_cons_self, hy'⟩
    · obtain ⟨x', hx', hfx⟩ := ih hys' hy
      exact ⟨x', List.mem_cons_of_mem _ hx', hfx⟩

/-- What is asked for are columns of the table. -/
theorem mem_of_askedColumns {columns : Option (Series StdString)} {cols : List Column}
    (h : askedColumns schema columns = some cols) : ∀ column ∈ cols, column ∈ schema.columns := by
  intro column hcolumn
  cases columns with
  | none =>
    cases h
    exact hcolumn
  | some names =>
    obtain ⟨n, -, hn⟩ := exists_of_mem_mapM h hcolumn
    obtain ⟨c, -, hc⟩ := Option.bind_eq_some_iff.mp hn
    exact List.mem_of_getElem? hc

theorem askedColumns_ne_nil {columns : Option (Series StdString)} {cols : List Column}
    (hschema : schema.columns ≠ []) (h : askedColumns schema columns = some cols) :
    cols ≠ [] := by
  cases columns with
  | none =>
    cases h
    exact hschema
  | some names =>
    obtain ⟨n, ns, hnames⟩ : ∃ n ns, names.toList = n :: ns := by
      cases names with
      | one n => exact ⟨n, [], rfl⟩
      | more n ns => exact ⟨n, ns.toList, rfl⟩
    rintro rfl
    rw [askedColumns, hnames, List.mapM_cons] at h
    obtain ⟨column, -, hrest⟩ := Option.bind_eq_some_iff.mp h
    obtain ⟨rest, -, heq⟩ := Option.bind_eq_some_iff.mp hrest
    cases heq

theorem exists_getColumnIndex {column : Column} (h : column ∈ schema.columns) :
    ∃ c, schema.getColumnIndex column.name = some c ∧ c < schema.columns.length := by
  cases hindex : schema.getColumnIndex column.name with
  | none =>
    have hne := List.findIdx?_eq_none_iff.mp hindex column h
    exact absurd rfl (of_decide_eq_false hne)
  | some c =>
    obtain ⟨hlt, -⟩ := List.findIdx?_eq_some_iff_getElem.mp hindex
    exact ⟨c, rfl, hlt⟩

/-! ## The rows -/

/-- **The loops over the columns** show the fields, if no row is too short. -/
theorem exists_outputInfo {columns : List Column} {rows : List (List Field)}
    (hcolumns : ∀ column ∈ columns, column ∈ schema.columns)
    (hrows : ∀ row ∈ rows, row.length = schema.columns.length) :
    ∃ info, outputInfo schema rows columns = some info ∧ info.map (List.map some) =
      columns.map (fun column => rows.map (fun row => fieldNamed schema row column.name)) := by
  induction columns with
  | nil => exact ⟨[], rfl, rfl⟩
  | cons column columns ih =>
    obtain ⟨info, hinfo, heq⟩ := ih (fun c hc => hcolumns c (List.mem_cons_of_mem _ hc))
    obtain ⟨c, hc, hlt⟩ := exists_getColumnIndex (hcolumns column List.mem_cons_self)
    have hfield : ∀ row ∈ rows, ∃ field, row[c]? = some field := fun row hrow =>
      ⟨_, List.getElem?_eq_getElem ((hrows row hrow).symm ▸ hlt)⟩
    obtain ⟨cells, hcells, hfields⟩ := exists_mapM hfield
    have hnamed : ∀ row, fieldNamed schema row column.name = row[c]? := fun row => by
      rw [fieldNamed, hc, Option.bind_some]
    refine ⟨cells :: info, ?_, ?_⟩
    · rw [outputInfo, hc, Option.bind_eq_bind, Option.bind_some, hcells, Option.bind_eq_bind,
        Option.bind_some, hinfo]
      rfl
    · rw [List.map_cons, List.map_cons, heq, hfields]
      simp only [hnamed]

/-- All the columns are equally long, so that the number of the cells, divided by that of the
columns, is the number of the rows, as long as an `int` can count the cells. -/
theorem rowsNum_spec {columns : List Column} {rows : List (List Field)} {info : List (List Field)}
    (hcolumns : columns ≠ []) (h : info.map (List.map some) =
      columns.map (fun column => rows.map (fun row => fieldNamed schema row column.name))) :
    (rows.length * columns.length < 2 ^ 31 →
      ∃ num, rowsNum info columns.length = some num ∧ num.toInt = rows.length) ∧
    (2 ^ 31 ≤ rows.length * columns.length → rowsNum info columns.length = none) := by
  have hlengths : info.map List.length = List.replicate columns.length rows.length := by
    have hmap := congrArg (List.map List.length) h
    simpa [List.map_map, Function.comp_def] using hmap
  have hsum : (info.map List.length).sum = rows.length * columns.length := by
    rw [hlengths]
    simp [Nat.mul_comm]
  have hpos : 0 < columns.length := List.length_pos_of_ne_nil hcolumns
  unfold rowsNum
  dsimp only
  rw [hsum, Nat.mul_div_cancel _ hpos]
  constructor
  · intro hlt
    refine ⟨_, if_pos ⟨hlt, hpos.ne'⟩, Int32.toInt_ofNat_of_lt ?_⟩
    exact (Nat.le_mul_of_pos_right _ hpos).trans_lt hlt
  · exact fun hle => if_neg (fun hc => absurd hc.1 (not_lt.mpr hle))

/-- The rows of row ids. -/
theorem exists_rows (hwf : t.heap.WellFormed t.ids) {rids : List RowId}
    (h : ∀ rid ∈ rids, ∃ row, t.heap.live rid = some row) :
    ∃ order : List (RowId × List Field), order.map Prod.fst = rids ∧
      (∀ x ∈ order, t.heap.live x.1 = some x.2) ∧ rids.mapM t.rowAt = some order := by
  induction rids with
  | nil => exact ⟨[], rfl, fun _ hx => absurd hx List.not_mem_nil, rfl⟩
  | cons rid rids ih =>
    obtain ⟨row, hrow⟩ := h rid List.mem_cons_self
    obtain ⟨order, hids, hmem, htuples⟩ := ih (fun rid' h' => h rid' (List.mem_cons_of_mem _ h'))
    refine ⟨(rid, row) :: order, ?_, ?_, ?_⟩
    · rw [List.map_cons, hids]
    · exact List.forall_mem_cons.mpr ⟨hrow, hmem⟩
    · rw [List.mapM_cons, TableInfo.rowAt_eq hwf hrow, htuples]
      rfl

/-- The node behind the table's name. -/
def whereNode (conditions : Option Conditions) : SyntaxNode :=
  chain (Command.whereNodes conditions)

/-- **The rows of a `select`** are the chosen ones. -/
theorem exists_selectedRows {conditions : Option Conditions}
    {meets : Comparison → List Field → Prop} (hwf : t.heap.WellFormed t.ids)
    (hstarts : conditions = none → t.heap.StartsLive)
    (hwhere : ∀ cs ∈ conditions, WhereSelects cmp t meets cs) :
    ∃ order, Chosen t meets conditions order ∧ ∃ n, ∀ rounds, n ≤ rounds → ∀ context,
      selectedRows cmp t rounds context (whereNode conditions) = some (some order) := by
  cases conditions with
  | none =>
    refine ⟨t.heap.rows, rfl, t.heap.rows.length, fun rounds hrounds context => ?_⟩
    have hscan := TableInfo.scanned_mono hrounds ((TableInfo.exists_scanned hwf).1 (hstarts rfl))
    exact congrArg (Option.map some) hscan
  | some cs =>
    obtain ⟨n, found, hrun, hfound⟩ := hwhere cs rfl
    have hrids : ∀ rid ∈ inOrder found, ∃ row, t.heap.live rid = some row := fun rid hrid => by
      obtain ⟨row, hrow, -⟩ := (hfound rid).mp ((Finset.mem_sort _).mp hrid)
      exact ⟨row, hrow⟩
    obtain ⟨order, hids, hmem, htuples⟩ := exists_rows hwf hrids
    refine ⟨order, ⟨?_, fun x => ⟨fun hx => ⟨hmem x hx, ?_⟩, ?_⟩⟩, n, ?_⟩
    · rw [← List.pairwise_map (f := Prod.fst) (R := (· < ·)), hids]
      exact found.sortedLT_sort.pairwise
    · have hrid : x.1 ∈ inOrder found := hids ▸ List.mem_map_of_mem hx
      obtain ⟨row, hrow, hholds⟩ := (hfound x.1).mp ((Finset.mem_sort _).mp hrid)
      cases (hmem x hx).symm.trans hrow
      exact hholds
    · rintro ⟨hx, hholds⟩
      have hrid : x.1 ∈ order.map Prod.fst :=
        hids ▸ (Finset.mem_sort _).mpr ((hfound x.1).mpr ⟨x.2, hx, hholds⟩)
      obtain ⟨y, hy, hid⟩ := List.mem_map.mp hrid
      have hrow := hmem y hy
      rw [hid, hx] at hrow
      exact Prod.ext hid (Option.some.inj hrow).symm ▸ hy
    · intro rounds hrounds context
      obtain ⟨type, val, child, hnode⟩ := cs.exists_node
      have hcs := hrun rounds hrounds context
      rw [hnode] at hcs
      have hwhereNode : whereNode (some cs) =
          .node .conditions none (.node type val child .null) .null := by
        rw [whereNode, Command.whereNodes, hnode]
        rfl
      rw [hwhereNode, selectedRows, hcs, Option.bind_eq_bind, Option.bind_some]
      dsimp only
      rw [if_pos rfl, htuples]
      rfl

theorem Chosen.live {meets : Comparison → List Field → Prop} {conditions : Option Conditions}
    {order : List (RowId × List Field)} (hwf : t.heap.WellFormed t.ids)
    (h : Chosen t meets conditions order) : ∀ x ∈ order, t.heap.live x.1 = some x.2 := by
  cases conditions with
  | none =>
    cases h
    exact fun x hx => (hwf.lists_rows.2 x.1 x.2).mp hx
  | some cs => exact fun x hx => ((h.2 x).mp hx).1

/-! ## What is printed -/

open Bytes (Mem)

/-- A cell is what `GetData` leaves of a field in the static buffer. -/
def Printed (toString : Field → Mem) (cell : StdString) (field : Field) : Prop :=
  ∃ buf chars buf', field.getData toString buf chars = some buf' ∧ TypeChar.text buf' = some cell

section Printed

variable {h : PagedHeap} {its : List TableIterator} {toString : Field → Mem} {buf buf' : Mem}
  {j colId : ℕ}

/-- The cells of a column are those of the fields in it. -/
theorem columnInfo_printed {chars : RowId → Mem} {cells : List StdString}
    (h : PagedHeap.columnInfo toString chars colId its buf = some (cells, buf')) :
    ∃ fields, (its.map TableIterator.fields).mapM (fun row => row[colId]?) = some fields ∧
      List.Forall₂ (Printed toString) cells fields := by
  induction its generalizing buf cells with
  | nil =>
    cases h
    exact ⟨[], rfl, .nil⟩
  | cons it its ih =>
    rw [PagedHeap.columnInfo] at h
    simp only [Option.bind_eq_bind, Option.bind_eq_some_iff] at h
    obtain ⟨field, hfield, buf₁, hdata, cell, htext, ⟨cells, buf₂⟩, hrest, h⟩ := h
    cases h
    obtain ⟨fields, hfields, hprinted⟩ := ih hrest
    refine ⟨field :: fields, ?_, .cons ⟨buf, chars it.rid, buf₁, hdata, htext⟩ hprinted⟩
    rw [List.map_cons, List.mapM_cons, hfield, hfields]
    rfl

/-- The columns of cells are those of fields. -/
theorem outputInfo_printed {chars : ℕ → RowId → Mem} {cs : List Column}
    {info : List (List StdString)} (hscan : h.scan rounds = some its)
    (hinfo : h.outputInfo rounds toString chars j cs buf = some info) :
    ∃ fields, outputInfo h.schema (its.map TableIterator.fields) cs = some fields ∧
      List.Forall₂ (List.Forall₂ (Printed toString)) info fields := by
  induction cs generalizing j buf info with
  | nil =>
    cases hinfo
    exact ⟨[], rfl, .nil⟩
  | cons c cs ih =>
    rw [PagedHeap.outputInfo] at hinfo
    simp only [Option.bind_eq_bind, Option.bind_eq_some_iff] at hinfo
    obtain ⟨colId, hcol, its', hits, ⟨cells, buf₁⟩, hcells, info, hrest, hinfo⟩ := hinfo
    cases hinfo
    cases hscan.symm.trans hits
    obtain ⟨column, hcolumn, hprinted⟩ := columnInfo_printed hcells
    obtain ⟨fields, hfields, hall⟩ := ih hrest
    refine ⟨column :: fields, ?_, .cons hprinted hall⟩
    rw [outputInfo, hcol, Option.bind_eq_bind, Option.bind_some, hcolumn, Option.bind_eq_bind,
      Option.bind_some, hfields]
    rfl

/-- Tables of the same shape have columns of the same lengths. -/
theorem map_length_of_forall₂ {α β : Type} {R : α → β → Prop} {xs : List (List α)}
    {ys : List (List β)} (h : List.Forall₂ (List.Forall₂ R) xs ys) :
    ys.map List.length = xs.map List.length := by
  induction h with
  | nil => rfl
  | cons hrow _ ih => rw [List.map_cons, List.map_cons, hrow.length_eq, ih]

/-- **`ExecuteSelect` on the pages** prints, for all columns of a table without conditions, the
cells of the fields that it gives here, where both go over the same rows. -/
theorem executeSelect_printed {n : StdString} {m : Surroundings} {output : SelectOutput}
    (hschema : t.schema = h.schema) (hscan : h.scan rounds = some its)
    (hscanned : t.scanned rounds = some (its.map (fun it => (it.rid, it.fields))))
    (hselect : h.executeSelect m rounds = some output)
    (hcount : (output.outputInfo.map List.length).sum < 2 ^ 31) :
    ∃ selection, executeSelect cmp t rounds (Command.select none n none).node =
        some (some selection) ∧ selection.header = output.header ∧
      List.Forall₂ (List.Forall₂ (Printed m.toString)) output.outputInfo selection.outputInfo ∧
      selection.rowsNum.toInt = output.rowsNum := by
  obtain ⟨info, hinfo, hne, rfl⟩ := PagedHeap.executeSelect_eq_some.mp hselect
  obtain ⟨fields, hfields, hprinted⟩ := outputInfo_printed hscan hinfo
  have hlengths := map_length_of_forall₂ hprinted
  have hnum : rowsNum fields h.schema.columns.length = some (Int32.ofNat
      ((info.map List.length).sum / h.schema.columns.length)) := by
    rw [rowsNum, hlengths]
    exact if_pos ⟨hcount, List.length_pos_iff.mpr hne |>.ne'⟩
  have hrows : (its.map (fun it => (it.rid, it.fields))).map Prod.snd =
      its.map TableIterator.fields := List.map_map
  refine ⟨⟨h.schema.columns.map Column.name, fields, _⟩, ?_, rfl, hprinted,
    Int32.toInt_ofNat_of_lt ((Nat.div_le_self _ _).trans_lt hcount)⟩
  have htree : (Command.select none n none).node = .node .select none
      (.node .allColumns none .null (.node .identifier (name n).val .null .null)) .null := rfl
  rw [htree, executeSelect, executeInternalNodeOn, TableInfo.conditionTable, hscanned]
  change (selectedRows cmp t rounds ⟨t.schema.columns, ∅⟩ .null).bind _ = _
  rw [selectedRows, hscanned]
  change (outputInfo t.schema _ t.schema.columns).bind _ = _
  rw [hrows, hschema, hfields]
  change (rowsNum fields h.schema.columns.length).bind _ = _
  rw [hnum]
  rfl

end Printed

section Example

/-- `c = 5` selects the first of two rows. -/
theorem whereSelects_five : WhereSelects comparesDigits twoNumbers
    (Comparison.HoldsOf digit numberSchema) (.one ⟨[99], .equal, .number [53]⟩) := by
  refine (whereSelects_iff_of_execute twoNumbers_wellFormed twoNumbers_startsLive
    fun c hc => ?_).1.mpr trivial
  cases List.mem_singleton.mp hc
  exact (ofIntegers_twoNumbers 53).exists_execute (fun _ _ _ => rfl)

end Example

end MiniSql.Parser
