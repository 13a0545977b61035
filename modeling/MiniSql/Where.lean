import MiniSql.Command
import MiniSql.Connector
import MiniSql.NullTest
import MiniSql.TableScan

/-!
# Conditions

`ExecuteInternalNode` on the tree that the parser makes of a `where`: the connectors are
nested to the left, whatever they are, and each of them combines the row ids that its
operands leave in the context.

The row ids that are left in the end are those of the rows that satisfy the conditions, read
from the left (`executeInternalNode_conditions`). But for every `or` there has to be a row on
the right whose row id is not smaller than any on the left; else the loop for `or` reads
behind the end of a set, and nothing can be said. For columns of integers that have no index
each comparison selects the rows that satisfy it, and they are all the live rows that do, if
the scan of the table starts with a live row (`whereSelects_iff`).
-/

namespace MiniSql.Parser

open MiniSql.Parser.SyntaxNode

/-! ## The internal nodes -/

/-- `ExecuteContext`, with what the internal nodes leave in it. -/
structure ExecuteContext where
  /-- `select_columns_` -/
  selectColumns : List Column
  /-- `internal_result_rid_` -/
  internalResultRid : Finset RowId

/-- The text of a connector. -/
def connectorOf (val : StdString) : Option Connector :=
  if val = text "and" then some .and
  else if val = text "or" then some .or
  else none

/-- The loop of `ExecuteColumnList`, up to the first unknown name. -/
def executeColumnList (schema : Schema) : SyntaxNode → List Column → Option (List Column × Bool)
  | .null, selected => some (selected, true)
  | .node _ val _ next, selected => do
    let name ← val
    match schema.getColumnIndex name with
    | none => return (selected, false)
    | some c =>
      let column ← schema.columns[c]?
      executeColumnList schema next (selected ++ [column])

variable {Key : Type}

/-- `ExecuteInternalNode`, with the table of the statement found. The loops of
`ExecuteConnector` take at most the given number of rounds. A column definition has a branch
without an answer. -/
def executeInternalNode (cmp : Comparing Key) (table : ConditionTable) (rounds : ℕ) :
    SyntaxNode → ExecuteContext → Option (ExecuteContext × Bool)
  | .null, _ => none
  | .node type val child next, context =>
    match type with
    | .columnDefinition => none
    | .connector =>
      match child with
      | .null => none
      | .node type₁ val₁ child₁ next₁ => do
        let (context, success) ←
          executeInternalNode cmp table rounds (.node type₁ val₁ child₁ next₁) context
        if success then
          let table₁ := context.internalResultRid
          let (context, success) ← executeInternalNode cmp table rounds next₁ context
          if success then
            let table₂ := context.internalResultRid
            match connectorOf (← val) with
            | none => return ({ context with internalResultRid := ∅ }, true)
            | some connector =>
              let (result, success) ←
                connector.executeConnector rounds (some (table₁, true)) (some (table₂, true))
              return ({ context with internalResultRid := result }, success)
          else return (context, false)
        else return (context, false)
    | .compareOperator => do
      let (result, success) ← executeConditionNode cmp table (.node type val child next)
      return ({ context with internalResultRid := result }, success)
    | .allColumns => some ({ context with selectColumns := table.schema.columns }, true)
    | .columnList => do
      let (columns, success) ← executeColumnList table.schema child []
      return ({ context with selectColumns := columns }, success)
    | _ => some (context, false)

/-! ## What conditions say -/

/-- The connector of a word. -/
def ConnectorWord.connector : ConnectorWord → Connector
  | and => .and
  | or => .or

theorem ConnectorWord.spelling (k : ConnectorWord) :
    ∃ val, k.token.spelling = some val ∧ connectorOf val = some k.connector := by
  cases k
  · exact ⟨_, rfl, rfl⟩
  · exact ⟨_, rfl, rfl⟩

namespace Conditions

/-- The comparisons. -/
def comparisons : Conditions → List Comparison
  | one c => [c]
  | more cs _ c => cs.comparisons ++ [c]

/-- **What conditions say** of something, if it is known which comparisons it meets: they are
read from the left, and neither connector binds more tightly. -/
def Holds {α : Type} (meets : Comparison → α → Prop) : Conditions → α → Prop
  | one c, x => meets c x
  | more cs .and c, x => cs.Holds meets x ∧ meets c x
  | more cs .or c, x => cs.Holds meets x ∨ meets c x

/-- The sets of the comparisons, combined. -/
def combined (selected : Comparison → Finset RowId) : Conditions → Finset RowId
  | one c => selected c
  | more cs k c => k.connector.combine (cs.combined selected) (selected c)

/-- **No `or` reads behind its second set**: there the greatest row id is not on the left. -/
def OrsEndLater (selected : Comparison → Finset RowId) : Conditions → Prop
  | one _ => True
  | more cs k c => cs.OrsEndLater selected ∧
    (k = .or → ∀ x ∈ cs.combined selected, ∃ y ∈ selected c, x ≤ y)

variable {selected : Comparison → Finset RowId} {cs : Conditions}

theorem mem_combined {rid : RowId} :
    rid ∈ cs.combined selected ↔ cs.Holds (fun c rid => rid ∈ selected c) rid := by
  induction cs with
  | one c => exact Iff.rfl
  | more cs k c ih =>
    cases k with
    | and => exact Finset.mem_inter.trans (and_congr_left fun _ => ih)
    | or => exact Finset.mem_union.trans (or_congr_left ih)

theorem Holds.congr {α : Type} {meets meets' : Comparison → α → Prop} {x : α}
    (h : ∀ c ∈ cs.comparisons, (meets c x ↔ meets' c x)) :
    cs.Holds meets x ↔ cs.Holds meets' x := by
  induction cs with
  | one c => exact h c List.mem_cons_self
  | more cs k c ih =>
    have hcs := ih (fun c' hc' => h c' (List.mem_append_left _ hc'))
    have hc := h c (List.mem_append_right _ List.mem_cons_self)
    cases k with
    | and => exact and_congr hcs hc
    | or => exact or_congr hcs hc

/-- Conditions on the one thing that something stands for. -/
theorem holds_exists {α β : Type} {meets : Comparison → β → Prop} {R : α → β → Prop} {x : α}
    (hunique : ∀ y y', R x y → R x y' → y = y') :
    cs.Holds (fun c x => ∃ y, R x y ∧ meets c y) x ↔ ∃ y, R x y ∧ cs.Holds meets y := by
  induction cs with
  | one c => exact Iff.rfl
  | more cs k c ih =>
    cases k with
    | and =>
      refine (and_congr_left fun _ => ih).trans ⟨?_, ?_⟩
      · rintro ⟨⟨y, hy, hcs⟩, y', hy', hc⟩
        exact ⟨y, hy, hcs, hunique y' y hy' hy ▸ hc⟩
      · rintro ⟨y, hy, hcs, hc⟩
        exact ⟨⟨y, hy, hcs⟩, y, hy, hc⟩
    | or =>
      refine (or_congr_left ih).trans ?_
      rw [← exists_or]
      exact exists_congr fun y => and_or_left.symm

end Conditions

/-! ## What is left in the context -/

variable {cmp : Comparing Key} {table : ConditionTable} {selected : Comparison → Finset RowId}
  {cs : Conditions} {rounds : ℕ}

/-- The node of a comparison, as it is executed. -/
def Comparison.execute (cmp : Comparing Key) (table : ConditionTable) (c : Comparison) :
    Option (Finset RowId × Bool) :=
  executeConditionNode cmp table (Comparison.phrase.node c)

/-- **A connector** comes to its end with the sets of its operands combined, or reads behind
the second set. -/
theorem executeConnector_spec (k : Connector) (A B : Finset RowId) :
    ((k = .or → ∀ x ∈ A, ∃ y ∈ B, x ≤ y) → ∀ rounds, A.card + B.card < rounds →
      k.executeConnector rounds (some (A, true)) (some (B, true)) =
        some (k.combine A B, true)) ∧
    (¬ (k = .or → ∀ x ∈ A, ∃ y ∈ B, x ≤ y) → ∀ rounds,
      k.executeConnector rounds (some (A, true)) (some (B, true)) = none) := by
  have hA : (A.sort (· ≤ ·)).Pairwise (· < ·) := A.sortedLT_sort.pairwise
  have hB : (B.sort (· ≤ ·)).Pairwise (· < ·) := B.sortedLT_sort.pairwise
  have hends : Connector.EndsLater (A.sort (· ≤ ·)) (B.sort (· ≤ ·)) ↔
      ∀ x ∈ A, ∃ y ∈ B, x ≤ y := by
    simp only [Connector.EndsLater, Finset.mem_sort]
  cases k with
  | and =>
    refine ⟨fun _ rounds hrounds => ?_, fun h => (h (fun heq => by cases heq)).elim⟩
    change (Connector.andLoop rounds _ _ ∅).bind (fun result => some (result, true)) = _
    rw [Connector.andLoop_eq hA hB (by rwa [Finset.length_sort, Finset.length_sort]),
      Finset.sort_toFinset, Finset.sort_toFinset, Finset.empty_union]
    rfl
  | or =>
    refine ⟨fun h rounds hrounds => ?_, fun h rounds => ?_⟩
    · change (Connector.orLoop rounds _ _ ∅).bind (fun result => some (result, true)) = _
      rw [(Connector.orLoop_eq hA hB).1 (hends.mpr (h rfl))
        (by rwa [Finset.length_sort, Finset.length_sort]),
        Finset.sort_toFinset, Finset.sort_toFinset, Finset.empty_union]
      rfl
    · change (Connector.orLoop rounds _ _ ∅).bind (fun result => some (result, true)) = _
      rw [(Connector.orLoop_eq hA hB).2 (fun hlater => h (fun _ => hends.mp hlater))]
      rfl

/-- A comparison leaves its set. -/
theorem executeInternalNode_comparison {c : Comparison} {A : Finset RowId}
    (h : c.execute cmp table = some (A, true)) (rounds : ℕ) (context : ExecuteContext) :
    executeInternalNode cmp table rounds (Comparison.phrase.node c) context =
      some ({ context with internalResultRid := A }, true) := by
  change (c.execute cmp table).bind _ = _
  rw [h]
  rfl

/-- What comes behind a node is not looked at. -/
theorem executeInternalNode_next (type : SyntaxNodeType) (val : Option StdString)
    (child next next' : SyntaxNode) :
    executeInternalNode cmp table rounds (.node type val child next) =
      executeInternalNode cmp table rounds (.node type val child next') := by
  funext context
  cases type with
  | connector => cases child <;> rfl
  | _ => rfl

/-- The node of conditions, by itself. -/
theorem Conditions.exists_node (cs : Conditions) :
    ∃ type val child, cs.node = .node type val child .null := by
  cases cs with
  | one c => exact ⟨_, _, _, rfl⟩
  | more cs k c => exact ⟨_, _, _, rfl⟩

/-- **A connector node**: both operands are executed, one after the other. -/
theorem executeInternalNode_connector {k : ConnectorWord} {c : Comparison} {A B : Finset RowId}
    {context : ExecuteContext}
    (hcs : executeInternalNode cmp table rounds cs.node context =
      some ({ context with internalResultRid := A }, true))
    (hc : c.execute cmp table = some (B, true)) :
    executeInternalNode cmp table rounds (Conditions.more cs k c).node context =
      (k.connector.executeConnector rounds (some (A, true)) (some (B, true))).map
        (fun r => ({ context with internalResultRid := r.1 }, r.2)) := by
  obtain ⟨type, val, child, hnode⟩ := cs.exists_node
  obtain ⟨spelling, hspelling, hconnector⟩ := k.spelling
  have hsecond := executeInternalNode_comparison hc rounds { context with internalResultRid := A }
  rw [hnode, executeInternalNode_next type val child .null (Comparison.phrase.node c)] at hcs
  have htree : (Conditions.more cs k c).node = .node .connector (some spelling)
      (.node type val child (Comparison.phrase.node c)) .null := by
    rw [Conditions.node, hnode, hspelling]
    rfl
  rw [htree, executeInternalNode]
  dsimp only
  rw [hcs, Option.bind_eq_bind, Option.bind_some]
  dsimp only
  rw [if_pos rfl, hsecond, Option.bind_some]
  dsimp only
  rw [if_pos rfl]
  change (match connectorOf spelling with
    | none => some (({ context with internalResultRid := ∅ } : ExecuteContext), true)
    | some connector =>
      (connector.executeConnector rounds (some (A, true)) (some (B, true))).bind
        (fun r => some ({ context with internalResultRid := r.1 }, r.2))) = _
  rw [hconnector]
  exact Option.map_eq_bind.symm

/-- An operand that gets stuck. -/
theorem executeInternalNode_connector_none {k : ConnectorWord} {c : Comparison}
    {context : ExecuteContext}
    (hcs : executeInternalNode cmp table rounds cs.node context = none) :
    executeInternalNode cmp table rounds (Conditions.more cs k c).node context = none := by
  obtain ⟨type, val, child, hnode⟩ := cs.exists_node
  rw [hnode, executeInternalNode_next type val child .null (Comparison.phrase.node c)] at hcs
  have htree : (Conditions.more cs k c).node = .node .connector k.token.spelling
      (.node type val child (Comparison.phrase.node c)) .null := by
    rw [Conditions.node, hnode]
    rfl
  rw [htree, executeInternalNode]
  dsimp only
  rw [hcs]
  rfl

/-- **The conditions leave the sets of the comparisons, combined**, if no `or` reads behind
its second set; else nothing can be said. -/
theorem executeInternalNode_conditions
    (hselected : ∀ c ∈ cs.comparisons, c.execute cmp table = some (selected c, true)) :
    (cs.OrsEndLater selected → ∃ n, ∀ rounds, n ≤ rounds → ∀ context,
      executeInternalNode cmp table rounds cs.node context =
        some ({ context with internalResultRid := cs.combined selected }, true)) ∧
    (¬ cs.OrsEndLater selected → ∃ n, ∀ rounds, n ≤ rounds → ∀ context,
      executeInternalNode cmp table rounds cs.node context = none) := by
  induction cs with
  | one c =>
    refine ⟨fun _ => ⟨0, fun rounds _ context => ?_⟩, fun h => (h trivial).elim⟩
    exact executeInternalNode_comparison (hselected c List.mem_cons_self) rounds context
  | more cs k c ih =>
    obtain ⟨hfound, hstuck⟩ := ih (fun c' hc' => hselected c' (List.mem_append_left _ hc'))
    have hc := hselected c (List.mem_append_right _ List.mem_cons_self)
    obtain ⟨hcombines, hbehind⟩ := executeConnector_spec k.connector (cs.combined selected)
      (selected c)
    have hor : k.connector = .or ↔ k = .or := by
      cases k
      · exact iff_of_false (fun h => by cases h) (fun h => by cases h)
      · exact iff_of_true rfl rfl
    rw [hor] at hcombines hbehind
    constructor
    · rintro ⟨hcs, hlast⟩
      obtain ⟨n, hn⟩ := hfound hcs
      refine ⟨max n ((cs.combined selected).card + (selected c).card + 1), ?_⟩
      intro rounds hrounds context
      obtain ⟨hle, hlt⟩ := max_le_iff.mp hrounds
      rw [executeInternalNode_connector (hn rounds hle context) hc, hcombines hlast rounds hlt]
      rfl
    · intro hnot
      by_cases hcs : cs.OrsEndLater selected
      · obtain ⟨n, hn⟩ := hfound hcs
        refine ⟨n, fun rounds hrounds context => ?_⟩
        rw [executeInternalNode_connector (hn rounds hrounds context) hc,
          hbehind (fun hlast => hnot ⟨hcs, hlast⟩) rounds]
        rfl
      · obtain ⟨n, hn⟩ := hstuck hcs
        refine ⟨n, fun rounds hrounds context => ?_⟩
        exact executeInternalNode_connector_none (hn rounds hrounds context)

/-! ## Columns of integers -/

/-- The operator that compares two values, if it does. -/
def ComparisonOperator.compareOperator : ComparisonOperator → Option CompareOperator
  | equal => some .equal
  | notEqual => some .notEqual
  | lessEqual => some .lessEqual
  | greaterEqual => some .greaterEqual
  | less => some .less
  | greater => some .greater
  | is => none
  | not => none

theorem ComparisonOperator.ofText_spelling (o : ComparisonOperator) :
    ∃ val, o.token.spelling = some val ∧ CompareOperator.ofText val = o.compareOperator := by
  cases o <;> exact ⟨_, rfl, rfl⟩

/-- The text of a value, without its quotes. -/
def ValueClause.text (v : ValueClause) : Option StdString := (ValueClause.phrase.node v).val

/-- **A row satisfies a comparison** with the number that is read from the text of the
value. -/
def Comparison.HoldsOf (atoi : StdString → Int32) (schema : Schema) (c : Comparison)
    (row : List Field) : Prop :=
  ∃ i op v j, schema.getColumnIndex c.column = some i ∧ c.operator.compareOperator = some op ∧
    c.value.text = some v ∧ row[i]? = some (.integer j) ∧ op.Holds j (atoi v)

/-- A comparison of a column of integers that has no index of its own with a value. -/
structure Comparison.OfIntegers (table : ConditionTable) (c : Comparison) (i : ℕ)
    (op : CompareOperator) (v : StdString) : Prop where
  name : table.schema.getColumnIndex c.column = some i
  column : ∃ column, table.schema.columns[i]? = some column ∧ column.type = .kTypeInt
  unindexed : ∀ keyMap ∈ table.indexes, keyMap ≠ [i]
  operator : c.operator.compareOperator = some op
  value : c.value.text = some v
  integers : ∀ row ∈ table.rows, ∃ j, row.2[i]? = some (.integer j)

/-- The comparison of a row with a value. -/
theorem Comparison.OfIntegers.holdsOf_iff {c : Comparison} {i : ℕ} {op : CompareOperator}
    {v : StdString} (h : c.OfIntegers table i op v) (atoi : StdString → Int32)
    {row : List Field} : c.HoldsOf atoi table.schema row ↔
      ∃ j, row[i]? = some (.integer j) ∧ op.Holds j (atoi v) := by
  constructor
  · rintro ⟨i', op', v', j, hi, hop, hv, hj⟩
    cases h.name.symm.trans hi
    cases h.operator.symm.trans hop
    cases h.value.symm.trans hv
    exact ⟨j, hj⟩
  · rintro ⟨j, hj⟩
    exact ⟨i, op, v, j, h.name, h.operator, h.value, hj⟩

/-- What is read of the node of a comparison. -/
theorem Comparison.vals_node (c : Comparison) :
    (Comparison.phrase.node c).val = c.operator.token.spelling ∧
      (Comparison.phrase.node c).child.val = some c.column ∧
        (Comparison.phrase.node c).child.next.val = c.value.text := by
  obtain ⟨column, operator, value⟩ := c
  cases value <;> exact ⟨rfl, rfl, rfl⟩

/-- A comparison with `null` is the node of a NULL test. -/
theorem Comparison.node_nullTest (column : StdString) :
    Comparison.phrase.node ⟨column, .is, .null⟩ = NullTest.is.node column ∧
      Comparison.phrase.node ⟨column, .not, .null⟩ = NullTest.not.node column := ⟨rfl, rfl⟩

/-- **A comparison selects the rows that satisfy it.** -/
theorem Comparison.OfIntegers.exists_execute {c : Comparison} {i : ℕ} {op : CompareOperator}
    {v : StdString} (h : c.OfIntegers table i op v) {atoi : StdString → Int32}
    (hcmp : ∀ op v f, cmp.test op .kTypeInt v f = op.test f (.integer (atoi v))) :
    ∃ found, c.execute cmp table = some (found, true) ∧
      ∀ rid, rid ∈ found ↔ ∃ row, (rid, row) ∈ table.rows ∧ c.HoldsOf atoi table.schema row := by
  obtain ⟨column, hcolumn, htype⟩ := h.column
  obtain ⟨val, hval, hoperator⟩ := c.operator.ofText_spelling
  rw [h.operator] at hoperator
  have hrows : ∀ row ∈ table.rows, ∃ b,
      (row.2[i]?.bind (cmp.test op column.type v)) = some b ∧
        (b = true ↔ c.HoldsOf atoi table.schema row.2) := by
    intro row hrow
    obtain ⟨j, hj⟩ := h.integers row hrow
    refine ⟨decide (op.Holds j (atoi v)), ?_, ?_⟩
    · rw [hj, Option.bind_some, htype, hcmp, CompareOperator.test_integer]
    · rw [decide_eq_true_iff, h.holdsOf_iff, hj]
      constructor
      · exact fun hholds => ⟨j, rfl, hholds⟩
      · rintro ⟨j', hj', hholds⟩
        cases hj'
        exact hholds
  obtain ⟨found, hfound, hmem⟩ := exists_collect Prod.fst _ hrows
  refine ⟨found, ?_, fun rid => (hmem rid).trans ?_⟩
  · have hfind : table.indexes.find? (fun keyMap => keyMap = [i]) = none := by
      rw [List.find?_eq_none]
      intro keyMap hkeyMap heq
      exact h.unindexed keyMap hkeyMap (of_decide_eq_true heq)
    obtain ⟨hop, hname, hvalue⟩ := c.vals_node
    unfold Comparison.execute executeConditionNode
    simp only [hop, hval, hname, hvalue, h.value, Option.bind_eq_bind, Option.bind_some, h.name,
      hcolumn, hfind, hoperator, hfound, Option.map_some]
  · constructor
    · rintro ⟨row, hrow, hholds, rfl⟩
      exact ⟨row.2, hrow, hholds⟩
    · rintro ⟨row, hrow, hholds⟩
      exact ⟨(rid, row), hrow, hholds, rfl⟩

/-- **No `or` is one-sided at the end**: on its right a row satisfies the comparison whose row
id is not smaller than that of any row that satisfies the conditions on its left. -/
def Conditions.OrsReach (rows : List (RowId × List Field))
    (meets : Comparison → List Field → Prop) : Conditions → Prop
  | .one _ => True
  | .more cs k c => cs.OrsReach rows meets ∧ (k = .or → ∀ x ∈ rows, cs.Holds meets x.2 →
      ∃ y ∈ rows, meets c y.2 ∧ x.1 ≤ y.1)

/-- The row ids of the rows that satisfy the conditions. -/
theorem Conditions.mem_combined_iff {meets : Comparison → List Field → Prop}
    (hnodup : (table.rows.map Prod.fst).Nodup)
    (hmem : ∀ c ∈ cs.comparisons, ∀ rid, rid ∈ selected c ↔
      ∃ row, (rid, row) ∈ table.rows ∧ meets c row) (rid : RowId) :
    rid ∈ cs.combined selected ↔ ∃ row, (rid, row) ∈ table.rows ∧ cs.Holds meets row := by
  have hcongr : cs.Holds (fun c rid => rid ∈ selected c) rid ↔
      cs.Holds (fun c rid => ∃ row, (rid, row) ∈ table.rows ∧ meets c row) rid :=
    Holds.congr fun c hc => hmem c hc rid
  rw [mem_combined, hcongr]
  refine holds_exists fun row row' hrow hrow' => ?_
  have hsame := List.inj_on_of_nodup_map hnodup hrow hrow' rfl
  exact congrArg Prod.snd hsame

theorem Conditions.orsEndLater_iff {meets : Comparison → List Field → Prop}
    (hnodup : (table.rows.map Prod.fst).Nodup)
    (hmem : ∀ c ∈ cs.comparisons, ∀ rid, rid ∈ selected c ↔
      ∃ row, (rid, row) ∈ table.rows ∧ meets c row) :
    cs.OrsEndLater selected ↔ cs.OrsReach table.rows meets := by
  induction cs with
  | one c => exact Iff.rfl
  | more cs k c ih =>
    have hcs : ∀ c' ∈ cs.comparisons, ∀ rid, rid ∈ selected c' ↔
        ∃ row, (rid, row) ∈ table.rows ∧ meets c' row :=
      fun c' hc' => hmem c' (List.mem_append_left _ hc')
    have hc := hmem c (List.mem_append_right _ List.mem_cons_self)
    refine and_congr (ih hcs) (imp_congr_right fun _ => ?_)
    constructor
    · intro h x hx hholds
      obtain ⟨y, hy, hle⟩ := h x.1 ((mem_combined_iff hnodup hcs _).mpr ⟨x.2, hx, hholds⟩)
      obtain ⟨row, hrow, hmeets⟩ := (hc y).mp hy
      exact ⟨(y, row), hrow, hmeets, hle⟩
    · intro h x hx
      obtain ⟨row, hrow, hholds⟩ := (mem_combined_iff hnodup hcs _).mp hx
      obtain ⟨y, hy, hmeets, hle⟩ := h (x, row) hrow hholds
      exact ⟨y.1, (hc y.1).mpr ⟨y.2, hy, hmeets⟩, hle⟩

/-- Conditions whose comparisons select the rows that satisfy them come to their end, exactly if
no `or` is one-sided at the end; else the loop of an `or` reads behind the end of a set. -/
theorem executeInternalNode_of_execute {meets : Comparison → List Field → Prop}
    (hnodup : (table.rows.map Prod.fst).Nodup)
    (hcs : ∀ c ∈ cs.comparisons, ∃ found, c.execute cmp table = some (found, true) ∧
      ∀ rid, rid ∈ found ↔ ∃ row, (rid, row) ∈ table.rows ∧ meets c row) :
    (cs.OrsReach table.rows meets → ∃ n found, (∀ rounds, n ≤ rounds → ∀ context,
      executeInternalNode cmp table rounds cs.node context =
        some ({ context with internalResultRid := found }, true)) ∧
      ∀ rid, rid ∈ found ↔ ∃ row, (rid, row) ∈ table.rows ∧ cs.Holds meets row) ∧
    (¬ cs.OrsReach table.rows meets → ∃ n, ∀ rounds, n ≤ rounds → ∀ context,
      executeInternalNode cmp table rounds cs.node context = none) := by
  let selected (c : Comparison) : Finset RowId := ((c.execute cmp table).map Prod.fst).getD ∅
  have hselected : ∀ c ∈ cs.comparisons, c.execute cmp table = some (selected c, true) ∧
      ∀ rid, rid ∈ selected c ↔ ∃ row, (rid, row) ∈ table.rows ∧ meets c row := by
    intro c hc
    obtain ⟨found, hfound, hmem⟩ := hcs c hc
    have heq : selected c = found := by
      change ((c.execute cmp table).map Prod.fst).getD ∅ = found
      rw [hfound]
      rfl
    rw [heq]
    exact ⟨hfound, hmem⟩
  have hmem := fun c hc => (hselected c hc).2
  obtain ⟨hends, hstuck⟩ := executeInternalNode_conditions fun c hc => (hselected c hc).1
  rw [← Conditions.orsEndLater_iff hnodup hmem]
  refine ⟨fun h => ?_, hstuck⟩
  obtain ⟨n, hn⟩ := hends h
  exact ⟨n, _, hn, Conditions.mem_combined_iff hnodup hmem⟩

end Parser

/-! ## On a table -/

namespace TableInfo

variable {t : TableInfo}

/-- What conditions see of a table: its schema, the rows that a scan comes to, and the columns
of its indexes. -/
def conditionTable (t : TableInfo) (rounds : ℕ) : Option ConditionTable :=
  (t.scanned rounds).map (fun rows => ⟨t.schema, rows, t.indexes.map IndexInfo.keyMap⟩)

/-- The table with all its live rows, in the order of the chain. -/
def liveTable (t : TableInfo) : ConditionTable :=
  ⟨t.schema, t.heap.rows, t.indexes.map IndexInfo.keyMap⟩

/-- **Conditions see all live rows**, where a scan starts with one. -/
theorem conditionTable_eq (hwf : t.heap.WellFormed t.ids) (hstarts : t.heap.StartsLive)
    {rounds : ℕ} (hrounds : t.heap.rows.length ≤ rounds) :
    t.conditionTable rounds = some t.liveTable := by
  rw [conditionTable, scanned_mono hrounds ((exists_scanned hwf).1 hstarts)]
  rfl

/-- A scan always comes to its end. -/
theorem exists_conditionTable (hwf : t.heap.WellFormed t.ids) {rounds : ℕ}
    (hrounds : t.heap.rows.length ≤ rounds) :
    ∃ table, t.conditionTable rounds = some table ∧ table.schema = t.schema := by
  obtain ⟨hall, hnone⟩ := exists_scanned hwf
  obtain ⟨rows, hrows⟩ : ∃ rows, t.scanned rounds = some rows := by
    by_cases hstarts : t.heap.StartsLive
    · exact ⟨_, scanned_mono hrounds (hall hstarts)⟩
    · exact ⟨_, scanned_mono hrounds (hnone hstarts)⟩
  exact ⟨⟨t.schema, rows, t.indexes.map IndexInfo.keyMap⟩, by rw [conditionTable, hrows]; rfl, rfl⟩

end TableInfo

namespace Parser

variable {Key : Type} {cmp : Comparing Key} {t : TableInfo} {cs : Conditions}

/-- `ExecuteInternalNode`, on a table. -/
def executeInternalNodeOn (cmp : Comparing Key) (t : TableInfo) (rounds : ℕ) (ast : SyntaxNode)
    (context : ExecuteContext) : Option (ExecuteContext × Bool) :=
  (t.conditionTable rounds).bind (fun table => executeInternalNode cmp table rounds ast context)

/-- **The conditions select the rows that satisfy them**: `ExecuteInternalNode` comes to its
end, and succeeds with the row ids of the live rows that do in the context. -/
def WhereSelects (cmp : Comparing Key) (t : TableInfo) (meets : Comparison → List Field → Prop)
    (cs : Conditions) : Prop :=
  ∃ n found, (∀ rounds, n ≤ rounds → ∀ context,
      executeInternalNodeOn cmp t rounds cs.node context =
        some ({ context with internalResultRid := found }, true)) ∧
    ∀ rid, rid ∈ found ↔ ∃ row, t.heap.live rid = some row ∧ cs.Holds meets row

/-- The conditions have no result, however many rounds their loops have. -/
def WhereStuck (cmp : Comparing Key) (t : TableInfo) (cs : Conditions) : Prop :=
  ∃ n, ∀ rounds, n ≤ rounds → ∀ context,
    executeInternalNodeOn cmp t rounds cs.node context = none

/-- Conditions whose comparisons select the rows that satisfy them do so, too, exactly if no
`or` is one-sided at the end. -/
theorem whereSelects_iff_of_execute {meets : Comparison → List Field → Prop}
    (hwf : t.heap.WellFormed t.ids) (hstarts : t.heap.StartsLive)
    (hcs : ∀ c ∈ cs.comparisons, ∃ found, c.execute cmp t.liveTable = some (found, true) ∧
      ∀ rid, rid ∈ found ↔ ∃ row, (rid, row) ∈ t.heap.rows ∧ meets c row) :
    (WhereSelects cmp t meets cs ↔ cs.OrsReach t.heap.rows meets) ∧
      (¬ cs.OrsReach t.heap.rows meets → WhereStuck cmp t cs) := by
  have hread : ∀ rounds, t.heap.rows.length ≤ rounds → ∀ context,
      executeInternalNodeOn cmp t rounds cs.node context =
        executeInternalNode cmp t.liveTable rounds cs.node context := by
    intro rounds hrounds context
    rw [executeInternalNodeOn, TableInfo.conditionTable_eq hwf hstarts hrounds]
    rfl
  have hlists := hwf.lists_rows
  have hnodes := executeInternalNode_of_execute hlists.1 hcs
  obtain ⟨hends, hstuck⟩ := hnodes
  have hstuck' : ¬ cs.OrsReach t.heap.rows meets → WhereStuck cmp t cs := by
    intro hnot
    obtain ⟨n, hn⟩ := hstuck hnot
    refine ⟨max n t.heap.rows.length, fun rounds hrounds context => ?_⟩
    obtain ⟨hle, hlen⟩ := max_le_iff.mp hrounds
    exact (hread rounds hlen context).trans (hn rounds hle context)
  refine ⟨⟨?_, fun h => ?_⟩, hstuck'⟩
  · rintro ⟨n, found, hrun, -⟩
    by_contra hnot
    obtain ⟨m, hm⟩ := hstuck' hnot
    have hnone := hm (max n m) (le_max_right n m) ⟨[], ∅⟩
    rw [hrun (max n m) (le_max_left n m)] at hnone
    cases hnone
  · obtain ⟨n, found, hn, hfound⟩ := hends h
    refine ⟨max n t.heap.rows.length, found, fun rounds hrounds context => ?_, fun rid => ?_⟩
    · obtain ⟨hle, hlen⟩ := max_le_iff.mp hrounds
      exact (hread rounds hlen context).trans (hn rounds hle context)
    · refine (hfound rid).trans (exists_congr fun row => and_congr_left fun _ => ?_)
      exact hlists.2 rid row

section Example

/-- `c = 5 or c = 7` -/
def fiveOrSeven : Conditions :=
  .more (.one ⟨[99], .equal, .number [53]⟩) .or ⟨[99], .equal, .number [55]⟩

/-- The number of a digit. -/
def digit (v : StdString) : Int32 := (v.headD 48).toInt8.toInt32 - 48

/-- Comparisons of integers. -/
def comparesDigits : Comparing Unit where
  test op _ v f := op.test f (.integer (digit v))
  indexKey _ _ := none
  search _ _ _ := none

/-- A table with two rows, 5 and 7, on its only page. -/
def twoNumbers : TableInfo where
  schema := numberSchema
  ids := pagesFrom2
  heap := ⟨[⟨2, [.live [.integer 5], .live [.integer 7]]⟩]⟩
  indexes := []

theorem twoNumbers_wellFormed : twoNumbers.heap.WellFormed twoNumbers.ids := by
  intro i p hp
  cases i with
  | zero =>
    cases hp
    rfl
  | succ i => cases hp

theorem twoNumbers_startsLive : twoNumbers.heap.StartsLive :=
  .inl ⟨_, rfl, _, List.mem_cons_self⟩

theorem integers_twoNumbers : ∀ row ∈ numberRows, ∃ j, row.2[0]? = some (.integer j) := by
  intro row hrow
  rcases List.mem_pair.mp hrow with rfl | rfl
  · exact ⟨5, rfl⟩
  · exact ⟨7, rfl⟩

/-- Its column, compared with a digit. -/
theorem ofIntegers_twoNumbers (d : UInt8) :
    Comparison.OfIntegers twoNumbers.liveTable ⟨[99], .equal, .number [d]⟩ 0 .equal [d] where
  name := rfl
  column := ⟨_, rfl, rfl⟩
  unindexed _ h := absurd h List.not_mem_nil
  operator := rfl
  value := rfl
  integers := integers_twoNumbers

end Example

end MiniSql.Parser
