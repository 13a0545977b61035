import MiniSql.AttributeGrammar
import MiniSql.ParserTables

/-!
# The grammar of the statements

The rules of `minisql.y` with their actions. Rule `n + 2` of `minisql_yacc.c` is
number `n` here, since 0 is no rule there and 1 is that of the whole input.

The tables have the left sides of the rules and the lengths of their right sides
(`yyr1_eq`, `yyr2_eq`).
-/

namespace MiniSql.Parser

open Grammar MiniSql.Parser.SyntaxNode

/-- The symbols that the rules derive. -/
inductive Nonterminal
  | start | sql | sqlCreateDatabase | sqlDropDatabase | sqlShowDatabases | sqlUseDatabase
  | sqlShowTables | sqlCreateTable | columnList | columnDefinitionList | columnDefinition
  | columnType | sqlDropTable | sqlCreateIndex | sqlDropIndex | sqlShowIndexes | sqlSelect
  | selectColumns | whereConditions | connector | whereCondition | columnValue | operator
  | sqlInsert | columnValues | sqlDelete | sqlUpdate | updateValues | updateValue | sqlTrxBegin
  | sqlTrxCommit | sqlTrxRollback | sqlQuit | sqlExecFile
deriving DecidableEq

namespace Nonterminal

/-- All of them, in the order of their numbers. -/
def all : List Nonterminal :=
  [.start, .sql, .sqlCreateDatabase, .sqlDropDatabase, .sqlShowDatabases, .sqlUseDatabase,
   .sqlShowTables, .sqlCreateTable, .columnList, .columnDefinitionList, .columnDefinition,
   .columnType, .sqlDropTable, .sqlCreateIndex, .sqlDropIndex, .sqlShowIndexes, .sqlSelect,
   .selectColumns, .whereConditions, .connector, .whereCondition, .columnValue, .operator,
   .sqlInsert, .columnValues, .sqlDelete, .sqlUpdate, .updateValues, .updateValue, .sqlTrxBegin,
   .sqlTrxCommit, .sqlTrxRollback, .sqlQuit, .sqlExecFile]

theorem mem_all (N : Nonterminal) : N ∈ all := by cases N <;> decide

/-- The number of a symbol; the tokens and the symbol of the whole input come first. -/
def symbol (N : Nonterminal) : ℕ := yynTokens + 1 + all.idxOf N

end Nonterminal

/-! ## The rules -/

/-- A rule, whose action has `$1`, `$2` and so on as `v 1`, `v 2` and so on. -/
def rule (lhs : Nonterminal) (rhs : List (Token ⊕ Nonterminal))
    (action : (ℕ → SyntaxNode) → SyntaxNode) : Rule Token Nonterminal SyntaxNode where
  lhs := lhs
  rhs := rhs
  value vs := action (fun i => vs.getD (i - 1) .null)

/-- **The rules**, in the order of `minisql.y`. -/
def rules : List (Rule Token Nonterminal SyntaxNode) :=
  [rule .start [.inr .sql, .inl .semicolon] (fun v => v 1),
   rule .sql [.inr .sqlCreateDatabase] (fun v => v 1),
   rule .sql [.inr .sqlDropDatabase] (fun v => v 1),
   rule .sql [.inr .sqlShowDatabases] (fun v => v 1),
   rule .sql [.inr .sqlUseDatabase] (fun v => v 1),
   rule .sql [.inr .sqlShowTables] (fun v => v 1),
   rule .sql [.inr .sqlCreateTable] (fun v => v 1),
   rule .sql [.inr .sqlDropTable] (fun v => v 1),
   rule .sql [.inr .sqlCreateIndex] (fun v => v 1),
   rule .sql [.inr .sqlDropIndex] (fun v => v 1),
   rule .sql [.inr .sqlShowIndexes] (fun v => v 1),
   rule .sql [.inr .sqlSelect] (fun v => v 1),
   rule .sql [.inr .sqlInsert] (fun v => v 1),
   rule .sql [.inr .sqlDelete] (fun v => v 1),
   rule .sql [.inr .sqlUpdate] (fun v => v 1),
   rule .sql [.inr .sqlTrxBegin] (fun v => v 1),
   rule .sql [.inr .sqlTrxCommit] (fun v => v 1),
   rule .sql [.inr .sqlTrxRollback] (fun v => v 1),
   rule .sql [.inr .sqlQuit] (fun v => v 1),
   rule .sql [.inr .sqlExecFile] (fun v => v 1),
   rule .sqlCreateDatabase [.inl .CREATE, .inl .DATABASE, .inl .IDENTIFIER]
     (fun v => (create .createDB none).addChildren (v 3)),
   rule .sqlDropDatabase [.inl .DROP, .inl .DATABASE, .inl .IDENTIFIER]
     (fun v => (create .dropDB none).addChildren (v 3)),
   rule .sqlShowDatabases [.inl .SHOW, .inl .DATABASES] (fun _ => create .showDB none),
   rule .sqlUseDatabase [.inl .USE, .inl .IDENTIFIER]
     (fun v => (create .useDB none).addChildren (v 2)),
   rule .sqlShowTables [.inl .SHOW, .inl .TABLES] (fun _ => create .showTables none),
   rule .sqlCreateTable [.inl .CREATE, .inl .TABLE, .inl .IDENTIFIER, .inl .leftParenthesis,
      .inr .columnDefinitionList, .inl .rightParenthesis]
     (fun v =>
       ((create .createTable none).addChildren (v 3)).addChildren
         ((create .columnDefinitionList none).addChildren (v 5))),
   rule .columnList [.inl .IDENTIFIER, .inl .comma, .inr .columnList]
     (fun v => (v 1).addSibling (v 3)),
   rule .columnList [.inl .IDENTIFIER] (fun v => v 1),
   rule .columnDefinitionList [.inr .columnDefinition, .inl .comma, .inr .columnDefinitionList]
     (fun v => (v 1).addSibling (v 3)),
   rule .columnDefinitionList [.inr .columnDefinition] (fun v => v 1),
   rule .columnDefinitionList [.inl .PRIMARY, .inl .KEY, .inl .leftParenthesis, .inr .columnList,
      .inl .rightParenthesis]
     (fun v => (create .columnList (some (text "primary keys"))).addChildren (v 4)),
   rule .columnDefinition [.inl .IDENTIFIER, .inr .columnType, .inl .UNIQUE]
     (fun v =>
       ((create .columnDefinition (some (text "unique"))).addChildren (v 1)).addChildren (v 2)),
   rule .columnDefinition [.inl .IDENTIFIER, .inr .columnType]
     (fun v => ((create .columnDefinition none).addChildren (v 1)).addChildren (v 2)),
   rule .columnType [.inl .INT] (fun _ => create .columnType (some (text "int"))),
   rule .columnType [.inl .FLOAT] (fun _ => create .columnType (some (text "float"))),
   rule .columnType [.inl .CHAR, .inl .leftParenthesis, .inl .NUMBER, .inl .rightParenthesis]
     (fun v => (create .columnType (some (text "char"))).addChildren (v 3)),
   rule .sqlDropTable [.inl .DROP, .inl .TABLE, .inl .IDENTIFIER]
     (fun v => (create .dropTable none).addChildren (v 3)),
   rule .sqlCreateIndex [.inl .CREATE, .inl .INDEX, .inl .IDENTIFIER, .inl .ON, .inl .IDENTIFIER,
      .inl .leftParenthesis, .inr .columnList, .inl .rightParenthesis]
     (fun v =>
       (((create .createIndex none).addChildren (v 3)).addChildren (v 5)).addChildren
         ((create .columnList (some (text "index keys"))).addChildren (v 7))),
   rule .sqlCreateIndex [.inl .CREATE, .inl .INDEX, .inl .IDENTIFIER, .inl .ON, .inl .IDENTIFIER,
      .inl .leftParenthesis, .inr .columnList, .inl .rightParenthesis, .inl .USING,
      .inl .IDENTIFIER]
     (fun v =>
       ((((create .createIndex none).addChildren (v 3)).addChildren (v 5)).addChildren
         ((create .columnList (some (text "index keys"))).addChildren (v 7))).addChildren
           ((create .indexType (some (text "index type"))).addChildren (v 10))),
   rule .sqlDropIndex [.inl .DROP, .inl .INDEX, .inl .IDENTIFIER]
     (fun v => (create .dropIndex none).addChildren (v 3)),
   rule .sqlShowIndexes [.inl .SHOW, .inl .INDEXES] (fun _ => create .showIndexes none),
   rule .sqlSelect [.inl .SELECT, .inr .selectColumns, .inl .FROM, .inl .IDENTIFIER]
     (fun v => ((create .select none).addChildren (v 2)).addChildren (v 4)),
   rule .sqlSelect [.inl .SELECT, .inr .selectColumns, .inl .FROM, .inl .IDENTIFIER, .inl .WHERE,
      .inr .whereConditions]
     (fun v =>
       (((create .select none).addChildren (v 2)).addChildren (v 4)).addChildren
         ((create .conditions none).addChildren (v 6))),
   rule .selectColumns [.inl .asterisk] (fun _ => create .allColumns none),
   rule .selectColumns [.inr .columnList]
     (fun v => (create .columnList (some (text "select columns"))).addChildren (v 1)),
   rule .whereConditions [.inr .whereConditions, .inr .connector, .inr .whereCondition]
     (fun v => ((v 2).addChildren (v 1)).addChildren (v 3)),
   rule .whereConditions [.inr .whereCondition] (fun v => v 1),
   rule .connector [.inl .AND] (fun _ => create .connector (some (text "and"))),
   rule .connector [.inl .OR] (fun _ => create .connector (some (text "or"))),
   rule .whereCondition [.inl .IDENTIFIER, .inr .operator, .inr .columnValue]
     (fun v => ((v 2).addChildren (v 1)).addChildren (v 3)),
   rule .columnValue [.inl .STRING] (fun v => v 1),
   rule .columnValue [.inl .NUMBER] (fun v => v 1),
   rule .columnValue [.inl .FLAGNULL] (fun _ => create .null none),
   rule .operator [.inl .EQ] (fun _ => create .compareOperator (some (text "="))),
   rule .operator [.inl .NE] (fun _ => create .compareOperator (some (text "<>"))),
   rule .operator [.inl .LE] (fun _ => create .compareOperator (some (text "<="))),
   rule .operator [.inl .GE] (fun _ => create .compareOperator (some (text ">="))),
   rule .operator [.inl .lessThan] (fun _ => create .compareOperator (some (text "<"))),
   rule .operator [.inl .greaterThan] (fun _ => create .compareOperator (some (text ">"))),
   rule .operator [.inl .IS] (fun _ => create .compareOperator (some (text "is"))),
   rule .operator [.inl .NOT] (fun _ => create .compareOperator (some (text "not"))),
   rule .sqlInsert [.inl .INSERT, .inl .INTO, .inl .IDENTIFIER, .inl .VALUES,
      .inl .leftParenthesis, .inr .columnValues, .inl .rightParenthesis]
     (fun v =>
       ((create .insert none).addChildren (v 3)).addChildren
         ((create .columnValues none).addChildren (v 6))),
   rule .columnValues [.inr .columnValue, .inl .comma, .inr .columnValues]
     (fun v => (v 1).addSibling (v 3)),
   rule .columnValues [.inr .columnValue] (fun v => v 1),
   rule .sqlDelete [.inl .DELETE, .inl .FROM, .inl .IDENTIFIER]
     (fun v => (create .delete none).addChildren (v 3)),
   rule .sqlDelete [.inl .DELETE, .inl .FROM, .inl .IDENTIFIER, .inl .WHERE,
      .inr .whereConditions]
     (fun v =>
       ((create .delete none).addChildren (v 3)).addChildren
         ((create .conditions none).addChildren (v 5))),
   rule .sqlUpdate [.inl .UPDATE, .inl .IDENTIFIER, .inl .SET, .inr .updateValues]
     (fun v =>
       ((create .update none).addChildren (v 2)).addChildren
         ((create .updateValues none).addChildren (v 4))),
   rule .sqlUpdate [.inl .UPDATE, .inl .IDENTIFIER, .inl .SET, .inr .updateValues, .inl .WHERE,
      .inr .whereConditions]
     (fun v =>
       (((create .update none).addChildren (v 2)).addChildren
         ((create .updateValues none).addChildren (v 4))).addChildren
           ((create .conditions none).addChildren (v 6))),
   rule .updateValues [.inr .updateValue, .inl .comma, .inr .updateValues]
     (fun v => (v 1).addSibling (v 3)),
   rule .updateValues [.inr .updateValue] (fun v => v 1),
   rule .updateValue [.inl .IDENTIFIER, .inl .EQ, .inr .columnValue]
     (fun v => ((create .updateValue none).addChildren (v 1)).addChildren (v 3)),
   rule .sqlTrxBegin [.inl .TRXBEGIN] (fun _ => create .trxBegin none),
   rule .sqlTrxCommit [.inl .TRXCOMMIT] (fun _ => create .trxCommit none),
   rule .sqlTrxRollback [.inl .TRXROLLBACK] (fun _ => create .trxRollback none),
   rule .sqlQuit [.inl .QUIT] (fun _ => create .quit none),
   rule .sqlExecFile [.inl .EXECFILE, .inl .STRING]
     (fun v => (create .execFile none).addChildren (v 2))]

/-- The rules by their numbers. -/
def grammar (r : Fin rules.length) : Rule Token Nonterminal SyntaxNode := rules.get r

theorem grammar_rhs_ne_nil (r : Fin rules.length) : (grammar r).rhs ≠ [] := by
  revert r
  decide

/-- The tables have the symbols that the rules derive. -/
theorem yyr1_eq (r : Fin rules.length) :
    yyr1.getD (r + 2) 0 = (grammar r).lhs.symbol := by
  revert r
  decide

/-- The tables have the lengths of the rules. -/
theorem yyr2_eq (r : Fin rules.length) :
    yyr2.getD (r + 2) 0 = (grammar r).rhs.length := by
  revert r
  decide

end MiniSql.Parser
