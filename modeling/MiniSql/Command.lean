import MiniSql.SqlGrammar

/-!
# The commands

What the statements say, without their syntax: a type for each kind of phrase, with the
lexemes that it is written with, the tree that it is given, and the places that the
parser needs on its stack to read it (`Phrase`).

A symbol of the grammar denotes the values of a type if what is derived from it is how
they are written (`Denotes`).
-/

namespace MiniSql.Parser

open Grammar MiniSql.Parser.SyntaxNode

/-! ## Phrases -/

/-- How the values of a type are written, and read. -/
structure Phrase (α : Type) where
  /-- The lexemes. -/
  lexemes : α → List Lexeme
  /-- The tree. -/
  node : α → SyntaxNode
  /-- The places on the stack. -/
  places : α → ℕ

/-- **A symbol denotes the values of a type**: what is derived from it is how they are
written. -/
def Denotes {α : Type} (N : Nonterminal) (p : Phrase α) : Prop :=
  ∀ ls t d, Derives grammar [.inr N] (canon ls) [t] d ↔
    ∃ x, ls = p.lexemes x ∧ d = p.places x ∧ p.node x = t

/-- The phrases of a kind. -/
def Phrase.comap {α β : Type} (p : Phrase β) (make : α → β) : Phrase α where
  lexemes x := p.lexemes (make x)
  node x := p.node (make x)
  places x := p.places (make x)

/-- A node with these children. -/
def tree (type : SyntaxNodeType) (val : Option StdString) (children : List SyntaxNode) :
    SyntaxNode :=
  .node type val (chain children) .null

/-- The node of an identifier. -/
def name (yytext : StdString) : SyntaxNode := create .identifier (some yytext)

/-- One or more things, with commas between them. -/
inductive Series (α : Type)
  | one (x : α)
  | more (x : α) (xs : Series α)

namespace Series

variable {α : Type}

/-- What is in a series. -/
def toList : Series α → List α
  | one x => [x]
  | more x xs => x :: xs.toList

/-- The lexemes of a series. -/
def lexemes (f : α → List Lexeme) : Series α → List Lexeme
  | one x => f x
  | more x xs => f x ++ .fixed .comma :: xs.lexemes f

/-- The places that a series needs: it is reduced from its end. -/
def places (f : α → ℕ) : Series α → ℕ
  | one x => f x
  | more x xs => max (f x) (xs.places f + 2)

/-- The phrase of a series, as the first one of its nodes. -/
def phrase (p : Phrase α) : Phrase (Series α) where
  lexemes := lexemes p.lexemes
  node xs := chain (xs.toList.map p.node)
  places := places p.places

end Series

/-- An identifier. -/
def namePhrase : Phrase StdString where
  lexemes s := [.identifier s]
  node s := name s
  places _ := 1

/-! ### Columns -/

/-- `int`, `float` or `char` with a length. -/
inductive TypeClause
  | int
  | float
  | char (length : StdString)

/-- `column_type` -/
def TypeClause.phrase : Phrase TypeClause where
  lexemes
    | .int => [.fixed .INT]
    | .float => [.fixed .FLOAT]
    | .char n => [.fixed .CHAR, .fixed .leftParenthesis, .number n, .fixed .rightParenthesis]
  node
    | .int => tree .columnType (some (text "int")) []
    | .float => tree .columnType (some (text "float")) []
    | .char n => tree .columnType (some (text "char")) [create .number (some n)]
  places
    | .int => 1
    | .float => 1
    | .char _ => 4

/-- A column with its type. -/
structure ColumnClause where
  /-- The name. -/
  column : StdString
  /-- The type. -/
  type : TypeClause
  /-- Is it declared `unique`? -/
  unique : Bool

/-- `column_definition` -/
def ColumnClause.phrase : Phrase ColumnClause where
  lexemes c :=
    .identifier c.column :: (TypeClause.phrase.lexemes c.type ++
      if c.unique then [.fixed .UNIQUE] else [])
  node c :=
    tree .columnDefinition (if c.unique then some (text "unique") else none)
      [name c.column, TypeClause.phrase.node c.type]
  places c := max (TypeClause.phrase.places c.type) (if c.unique then 2 else 1) + 1

/-- The columns of a table; the primary key comes last. -/
inductive DefinitionList
  | last (c : ColumnClause)
  | primaryKey (columns : Series StdString)
  | more (c : ColumnClause) (cs : DefinitionList)

namespace DefinitionList

/-- The lexemes. -/
def lexemes : DefinitionList → List Lexeme
  | last c => ColumnClause.phrase.lexemes c
  | primaryKey columns =>
    [.fixed .PRIMARY, .fixed .KEY, .fixed .leftParenthesis] ++
      (Series.phrase namePhrase).lexemes columns ++ [.fixed .rightParenthesis]
  | more c cs => ColumnClause.phrase.lexemes c ++ .fixed .comma :: cs.lexemes

/-- The nodes. -/
def nodes : DefinitionList → List SyntaxNode
  | last c => [ColumnClause.phrase.node c]
  | primaryKey columns =>
    [tree .columnList (some (text "primary keys")) (columns.toList.map name)]
  | more c cs => ColumnClause.phrase.node c :: cs.nodes

/-- The places. -/
def places : DefinitionList → ℕ
  | last c => ColumnClause.phrase.places c
  | primaryKey columns => max ((Series.phrase namePhrase).places columns) 2 + 3
  | more c cs => max (ColumnClause.phrase.places c) (cs.places + 2)

/-- `column_definition_list` -/
def phrase : Phrase DefinitionList where
  lexemes := lexemes
  node cs := chain cs.nodes
  places := places

end DefinitionList

/-! ### Values and conditions -/

/-- A value: a string with its quotes, a number, or `null`. -/
inductive ValueClause
  | string (yytext : StdString)
  | number (yytext : StdString)
  | null

/-- `column_value` -/
def ValueClause.phrase : Phrase ValueClause where
  lexemes
    | .string s => [.string s]
    | .number s => [.number s]
    | .null => [.fixed .FLAGNULL]
  node
    | .string s => create .string (some s)
    | .number s => create .number (some s)
    | .null => tree .null none []
  places _ := 1

/-- What stands between a column and a value. -/
inductive ComparisonOperator
  | equal
  | notEqual
  | lessEqual
  | greaterEqual
  | less
  | greater
  | is
  | not
deriving DecidableEq

namespace ComparisonOperator

/-- The token. -/
def token : ComparisonOperator → Token
  | equal => .EQ
  | notEqual => .NE
  | lessEqual => .LE
  | greaterEqual => .GE
  | less => .lessThan
  | greater => .greaterThan
  | is => .IS
  | not => .NOT

/-- `operator` -/
def phrase : Phrase ComparisonOperator where
  lexemes o := [.fixed o.token]
  node o := tree .compareOperator o.token.spelling []
  places _ := 1

end ComparisonOperator

/-- A column compared with a value. -/
structure Comparison where
  /-- The name of the column. -/
  column : StdString
  /-- The operator. -/
  operator : ComparisonOperator
  /-- The value. -/
  value : ValueClause

/-- `where_condition` -/
def Comparison.phrase : Phrase Comparison where
  lexemes c :=
    .identifier c.column :: (ComparisonOperator.phrase.lexemes c.operator ++
      ValueClause.phrase.lexemes c.value)
  node c :=
    tree .compareOperator c.operator.token.spelling
      [name c.column, ValueClause.phrase.node c.value]
  places _ := 3

/-- `and` or `or`. -/
inductive ConnectorWord
  | and
  | or
deriving DecidableEq

namespace ConnectorWord

/-- The token. -/
def token : ConnectorWord → Token
  | and => .AND
  | or => .OR

/-- `connector` -/
def phrase : Phrase ConnectorWord where
  lexemes k := [.fixed k.token]
  node k := tree .connector k.token.spelling []
  places _ := 1

end ConnectorWord

/-- The conditions, from the left. -/
inductive Conditions
  | one (c : Comparison)
  | more (cs : Conditions) (k : ConnectorWord) (c : Comparison)

namespace Conditions

/-- The lexemes. -/
def lexemes : Conditions → List Lexeme
  | one c => Comparison.phrase.lexemes c
  | more cs k c =>
    cs.lexemes ++ (ConnectorWord.phrase.lexemes k ++ Comparison.phrase.lexemes c)

/-- The tree: the last connector is on top. -/
def node : Conditions → SyntaxNode
  | one c => Comparison.phrase.node c
  | more cs k c => tree .connector k.token.spelling [cs.node, Comparison.phrase.node c]

/-- The places: one connector is reduced before the next one is read. -/
def places : Conditions → ℕ
  | one _ => 3
  | more _ _ _ => 5

/-- `where_conditions` -/
def phrase : Phrase Conditions where
  lexemes := lexemes
  node := node
  places := places

end Conditions

/-- A column and its new value. -/
structure SetClause where
  /-- The name of the column. -/
  column : StdString
  /-- The value. -/
  value : ValueClause

/-- `update_value` -/
def SetClause.phrase : Phrase SetClause where
  lexemes c := .identifier c.column :: .fixed .EQ :: ValueClause.phrase.lexemes c.value
  node c := tree .updateValue none [name c.column, ValueClause.phrase.node c.value]
  places _ := 3

/-- The columns that are selected; none stands for all of them. -/
def columnsPhrase : Phrase (Option (Series StdString)) where
  lexemes
    | none => [.fixed .asterisk]
    | some columns => (Series.phrase namePhrase).lexemes columns
  node
    | none => tree .allColumns none []
    | some columns =>
      tree .columnList (some (text "select columns")) (columns.toList.map name)
  places
    | none => 1
    | some columns => (Series.phrase namePhrase).places columns

/-! ### Commands -/

/-- A statement. -/
inductive Command
  | createDatabase (database : StdString)
  | dropDatabase (database : StdString)
  | showDatabases
  | useDatabase (database : StdString)
  | showTables
  | createTable (table : StdString) (definitions : DefinitionList)
  | dropTable (table : StdString)
  | createIndex (index table : StdString) (columns : Series StdString)
      (type : Option StdString)
  | dropIndex (index : StdString)
  | showIndexes
  | select (columns : Option (Series StdString)) (table : StdString)
      (conditions : Option Conditions)
  | insert (table : StdString) (values : Series ValueClause)
  | delete (table : StdString) (conditions : Option Conditions)
  | update (table : StdString) (values : Series SetClause) (conditions : Option Conditions)
  | trxBegin
  | trxCommit
  | trxRollback
  | quit
  | execFile (file : StdString)

namespace Command

/-- The lexemes of a `where`, if there is one. -/
def whereLexemes : Option Conditions → List Lexeme
  | none => []
  | some cs => .fixed .WHERE :: cs.lexemes

/-- The node of a `where`, if there is one. -/
def whereNodes : Option Conditions → List SyntaxNode
  | none => []
  | some cs => [tree .conditions none [cs.node]]

/-- The lexemes before the semicolon. -/
def body : Command → List Lexeme
  | createDatabase n => [.fixed .CREATE, .fixed .DATABASE, .identifier n]
  | dropDatabase n => [.fixed .DROP, .fixed .DATABASE, .identifier n]
  | showDatabases => [.fixed .SHOW, .fixed .DATABASES]
  | useDatabase n => [.fixed .USE, .identifier n]
  | showTables => [.fixed .SHOW, .fixed .TABLES]
  | createTable n ds =>
    [.fixed .CREATE, .fixed .TABLE, .identifier n, .fixed .leftParenthesis] ++
      (ds.lexemes ++ [.fixed .rightParenthesis])
  | dropTable n => [.fixed .DROP, .fixed .TABLE, .identifier n]
  | createIndex n t cs type =>
    [.fixed .CREATE, .fixed .INDEX, .identifier n, .fixed .ON, .identifier t,
      .fixed .leftParenthesis] ++ ((Series.phrase namePhrase).lexemes cs ++
        .fixed .rightParenthesis :: (match type with
          | none => []
          | some s => [.fixed .USING, .identifier s]))
  | dropIndex n => [.fixed .DROP, .fixed .INDEX, .identifier n]
  | showIndexes => [.fixed .SHOW, .fixed .INDEXES]
  | select cs t conditions =>
    .fixed .SELECT :: (columnsPhrase.lexemes cs ++
      .fixed .FROM :: .identifier t :: whereLexemes conditions)
  | insert t vs =>
    [.fixed .INSERT, .fixed .INTO, .identifier t, .fixed .VALUES, .fixed .leftParenthesis] ++
      ((Series.phrase ValueClause.phrase).lexemes vs ++ [.fixed .rightParenthesis])
  | delete t conditions =>
    [.fixed .DELETE, .fixed .FROM, .identifier t] ++ whereLexemes conditions
  | update t vs conditions =>
    [.fixed .UPDATE, .identifier t, .fixed .SET] ++
      ((Series.phrase SetClause.phrase).lexemes vs ++ whereLexemes conditions)
  | trxBegin => [.fixed .TRXBEGIN]
  | trxCommit => [.fixed .TRXCOMMIT]
  | trxRollback => [.fixed .TRXROLLBACK]
  | quit => [.fixed .QUIT]
  | execFile s => [.fixed .EXECFILE, .string s]

/-- The tree of a command. -/
def node : Command → SyntaxNode
  | createDatabase n => tree .createDB none [name n]
  | dropDatabase n => tree .dropDB none [name n]
  | showDatabases => tree .showDB none []
  | useDatabase n => tree .useDB none [name n]
  | showTables => tree .showTables none []
  | createTable n ds => tree .createTable none [name n, tree .columnDefinitionList none ds.nodes]
  | dropTable n => tree .dropTable none [name n]
  | createIndex n t cs type =>
    tree .createIndex none ([name n, name t,
      tree .columnList (some (text "index keys")) (cs.toList.map name)] ++
        (match type with
          | none => []
          | some s => [tree .indexType (some (text "index type")) [name s]]))
  | dropIndex n => tree .dropIndex none [name n]
  | showIndexes => tree .showIndexes none []
  | select cs t conditions =>
    tree .select none ([columnsPhrase.node cs, name t] ++ whereNodes conditions)
  | insert t vs =>
    tree .insert none
      [name t, tree .columnValues none (vs.toList.map ValueClause.phrase.node)]
  | delete t conditions => tree .delete none (name t :: whereNodes conditions)
  | update t vs conditions =>
    tree .update none ([name t, tree .updateValues none (vs.toList.map SetClause.phrase.node)] ++
      whereNodes conditions)
  | trxBegin => tree .trxBegin none []
  | trxCommit => tree .trxCommit none []
  | trxRollback => tree .trxRollback none []
  | quit => tree .quit none []
  | execFile s => tree .execFile none [create .string (some s)]

/-- The places that a `where` needs, behind what comes before it. -/
def wherePlaces : Option Conditions → ℕ
  | none => 0
  | some cs => cs.places + 1

/-- The places before the semicolon. -/
def bodyPlaces : Command → ℕ
  | createDatabase _ => 3
  | dropDatabase _ => 3
  | showDatabases => 2
  | useDatabase _ => 2
  | showTables => 2
  | createTable _ ds => max ds.places 2 + 4
  | dropTable _ => 3
  | createIndex _ _ cs type =>
    max ((Series.phrase namePhrase).places cs) (if type.isSome then 4 else 2) + 6
  | dropIndex _ => 3
  | showIndexes => 2
  | select cs _ conditions => max (columnsPhrase.places cs) (wherePlaces conditions + 3) + 1
  | insert _ vs => max ((Series.phrase ValueClause.phrase).places vs) 2 + 5
  | delete _ conditions => wherePlaces conditions + 3
  | update _ vs conditions =>
    max ((Series.phrase SetClause.phrase).places vs) (wherePlaces conditions + 1) + 3
  | trxBegin => 1
  | trxCommit => 1
  | trxRollback => 1
  | quit => 1
  | execFile _ => 2

/-- A command without its semicolon. -/
def bodyPhrase : Phrase Command where
  lexemes := body
  node := node
  places := bodyPlaces

/-- A command with its semicolon. -/
def phrase : Phrase Command where
  lexemes c := c.body ++ [.fixed .semicolon]
  node := node
  places c := max c.bodyPlaces 2

end Command

end MiniSql.Parser
