import MiniSql.CompareOperator
import MiniSql.SyntaxTree

/-!
# Conditions that ask for NULL

The syntax node of a condition that asks for NULL, as the grammar of `minisql.y` builds it
with `CreateSyntaxNode`, and `ExecuteCompareOperator` on the node of a condition, for columns
of every type. The loops over the heap and over an index that compare with a
constant are those of `CompareOperator`; what they do with the text of the
constant is left open here (`Comparing`).

The node of `null` has no text, and the code makes a `std::string` of its text
before it looks at anything else. Behind that, the branches for `is` and `not`
ask for the type of the operator's node instead of that of the value, and where
the column has an index there is no branch for them at all
(`not_success_of_nullTest`).
-/

namespace MiniSql

open MiniSql.Parser (SyntaxNode)
open MiniSql.Parser.SyntaxNode (create)

/-! ## The operators -/

/-- The operators that ask for NULL. -/
inductive NullTest
  | is
  | not
deriving DecidableEq

namespace NullTest

/-- The text of the operator. -/
def text : NullTest → StdString
  | is => [105, 115]
  | not => [110, 111, 116]

/-- The node of `c is null` or of `c not null`: the operator, with the column and the value
below it. -/
def node (t : NullTest) (columnName : StdString) : SyntaxNode :=
  ((create .compareOperator (some t.text)).addChildren
    (create .identifier (some columnName))).addChildren (create .null none)

/-- The rows that the operator asks for. -/
def Holds (t : NullTest) (f : Field) : Prop :=
  match t with
  | is => f.isNull
  | not => ¬ f.isNull

instance {t : NullTest} {f : Field} : Decidable (t.Holds f) := by
  cases t <;> unfold Holds <;> infer_instance

end NullTest

/-- The operator of a text. -/
def CompareOperator.ofText (text : StdString) : Option CompareOperator :=
  if text = [61] then some .equal
  else if text = [60, 62] then some .notEqual
  else if text = [60] then some .less
  else if text = [60, 61] then some .lessEqual
  else if text = [62] then some .greater
  else if text = [62, 61] then some .greaterEqual
  else none

/-! ## The execution of a condition -/

/-- A table as conditions see it: its rows in the order of the heap's iterator,
and the key columns of its indexes. -/
structure ConditionTable where
  /-- The schema. -/
  schema : Schema
  /-- The live rows. -/
  rows : List (RowId × List Field)
  /-- The `key_map_` of every index. -/
  indexes : List (List ℕ)

/-- What is done with the text of a constant, for each type of column: the
comparison of a field with it, the key that is made of it, and the search for
that key in an index. -/
structure Comparing (Key : Type) where
  /-- The condition of the loops over the heap. -/
  test : CompareOperator → TypeId → StdString → Field → Option Bool
  /-- `SerializeFromKey`. -/
  indexKey : TypeId → StdString → Option Key
  /-- The search in the index with these key columns. -/
  search : CompareOperator → List ℕ → Key → Option (Finset RowId)

variable {Key : Type}

/-- `ExecuteCompareOperator`, with the table of the statement found: the set
`internal_result_rid_`, and whether the answer is `DB_SUCCESS`. A `std::string`
cannot be made of a null pointer. -/
def executeConditionNode (cmp : Comparing Key) (table : ConditionTable) (ast : SyntaxNode) :
    Option (Finset RowId × Bool) := do
  let operation ← ast.val
  let attributeName ← ast.child.val
  let value ← ast.child.next.val
  match table.schema.getColumnIndex attributeName with
  | none => return (∅, false)
  | some fieldIndex =>
    let column ← table.schema.columns[fieldIndex]?
    match table.indexes.find? (fun keyMap => keyMap = [fieldIndex]) with
    | none =>
      let scan (selects : Field → Option Bool) : Option (Finset RowId × Bool) :=
        (collect (fun row : RowId × List Field => row.2[fieldIndex]?.bind selects) Prod.fst
          table.rows).map (fun found => (found, true))
      match CompareOperator.ofText operation with
      | some op => scan (cmp.test op column.type value)
      | none =>
        if operation = NullTest.is.text then
          if ast.type = some .null then scan (fun field => some field.isNull) else return (∅, false)
        else if operation = NullTest.not.text then
          if ast.type = some .null then scan (fun field => some !field.isNull) else return (∅, false)
        else return (∅, true)
    | some keyMap =>
      let key ← cmp.indexKey column.type value
      match CompareOperator.ofText operation with
      | some op => (cmp.search op keyMap key).map (fun found => (found, true))
      | none => return (∅, false)

/-- The row ids of the rows that a test asks for. -/
def NullTest.selected (t : NullTest) (table : ConditionTable) (c : ℕ) : Finset RowId :=
  ((table.rows.filter (fun row => (row.2[c]?).any (fun f => t.Holds f))).map Prod.fst).toFinset

/-- **A NULL test selects its rows**: it succeeds, and has the row ids of exactly
these rows. -/
def SelectsNulls (cmp : Comparing Key) (table : ConditionTable) (columnName : StdString) (c : ℕ)
    (t : NullTest) : Prop :=
  executeConditionNode cmp table (t.node columnName) = some (t.selected table c, true)

/-! ## What becomes of a NULL test -/

/-- **No operator `is` or `not` succeeds**, whatever stands below its node. -/
theorem not_success_of_nullTest {cmp : Comparing Key} {table : ConditionTable} {t : NullTest}
    {child next : SyntaxNode} {found : Finset RowId} :
    executeConditionNode cmp table (.node .compareOperator (some t.text) child next) ≠
      some (found, true) := by
  intro h
  have hop : CompareOperator.ofText t.text = none := by cases t <;> rfl
  simp only [executeConditionNode, SyntaxNode.val, SyntaxNode.child, SyntaxNode.next,
    Option.bind_eq_bind, Option.bind_some, Option.bind_eq_some_iff] at h
  obtain ⟨attributeName, -, value, -, h⟩ := h
  split at h
  · cases h
  · obtain ⟨column, -, h⟩ := Option.bind_eq_some_iff.mp h
    split at h
    · rw [hop] at h
      cases t <;> cases h
    · obtain ⟨key, -, h⟩ := Option.bind_eq_some_iff.mp h
      rw [hop] at h
      cases h

/-- The node of the grammar does not get that far: the value has no text. -/
theorem executeConditionNode_nullTest {cmp : Comparing Key} {table : ConditionTable}
    {t : NullTest} {columnName : StdString} :
    executeConditionNode cmp table (t.node columnName) = none := rfl

/-- **No NULL test selects its rows**: on no table, for no column. -/
theorem not_selectsNulls (cmp : Comparing Key) (table : ConditionTable) (columnName : StdString)
    (c : ℕ) (t : NullTest) : ¬ SelectsNulls cmp table columnName c t :=
  not_success_of_nullTest

/-- A table with a column `c` of integers, and one row, which has no value. -/
def nullTable : ConditionTable := ⟨numberSchema, [(⟨2, 0⟩, [.null .kTypeInt])], []⟩

/-- **`c is null` does not succeed** on that table. -/
theorem not_selectsNulls_nullTable : ¬ ∀ (cmp : Comparing PUnit) (table : ConditionTable)
    (columnName : StdString) (c : ℕ), table.schema.getColumnIndex columnName = some c →
    ∀ t, SelectsNulls cmp table columnName c t := by
  intro h
  have hselects := h ⟨fun _ _ _ _ => none, fun _ _ => none, fun _ _ _ => none⟩ nullTable [99] 0 rfl
    .is
  rw [SelectsNulls, executeConditionNode_nullTest] at hselects
  cases hselects

end MiniSql
