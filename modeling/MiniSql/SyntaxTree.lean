import MiniSql.Config

/-!
# Syntax trees

The nodes that `syntax_tree.c` makes for the parser: a type, a text, a first
child and a next sibling. What a `pSyntaxNode` points to is the node with all
that it leads to, so that a null pointer is a value of its own (`SyntaxNode.null`).
A node hangs in one place only, since every semantic action uses its arguments
once, and appending to a node is therefore a function of it.

A sequence of nodes that are linked by `next_` is a list of trees
(`SyntaxNode.chain`), and with this the functions that append are those of lists.
-/

namespace MiniSql.Parser

/-- The bytes of a string literal. -/
def text (s : String) : StdString := s.toUTF8.data.toList

/-- `SyntaxNodeType`. -/
inductive SyntaxNodeType
  | unknown
  | quit
  | execFile
  | identifier
  | number
  | string
  | null
  | createDB
  | dropDB
  | showDB
  | useDB
  | showTables
  | createTable
  | dropTable
  | showIndexes
  | insert
  | delete
  | update
  | select
  | conditions
  | connector
  | compareOperator
  | columnType
  | columnDefinition
  | columnDefinitionList
  | columnList
  | columnValues
  | updateValues
  | updateValue
  | allColumns
  | createIndex
  | dropIndex
  | indexType
  | trxBegin
  | trxCommit
  | trxRollback
deriving DecidableEq

/-- `pSyntaxNode`: null, or a node with its type, its text if it has one, its first
child and its next sibling. -/
inductive SyntaxNode
  | null
  | node (type : SyntaxNodeType) (val : Option StdString) (child next : SyntaxNode)
deriving DecidableEq

namespace SyntaxNode

/-- `type_` -/
def type : SyntaxNode → Option SyntaxNodeType
  | null => none
  | node type _ _ _ => some type

/-- `val_` -/
def val : SyntaxNode → Option StdString
  | null => none
  | node _ val _ _ => val

/-- `child_` -/
def child : SyntaxNode → SyntaxNode
  | null => null
  | node _ _ child _ => child

/-- `next_` -/
def next : SyntaxNode → SyntaxNode
  | null => null
  | node _ _ _ next => next

/-- `CreateSyntaxNode`: the text of a string loses its quotes. -/
def create (type : SyntaxNodeType) (val : Option StdString) : SyntaxNode :=
  node type (val.map (fun text =>
    if type = .string then (text.drop 1).take (text.length - 2) else text)) null null

/-- The loops that go along `next_` and append at the end. -/
def append : SyntaxNode → SyntaxNode → SyntaxNode
  | null, sib => sib
  | node type val child next, sib => node type val child (append next sib)

/-- `SyntaxNodeAddChildren` -/
def addChildren : SyntaxNode → SyntaxNode → SyntaxNode
  | null, _ => null
  | node type val null next, added => node type val added next
  | node type val child next, added => node type val (append child added) next

/-- `SyntaxNodeAddSibling` -/
def addSibling : SyntaxNode → SyntaxNode → SyntaxNode
  | null, _ => null
  | node type val child next, null => node type val child next
  | node type val child next, sib => node type val child (append next sib)

/-! ## Siblings as lists -/

/-- Nodes without siblings, linked one after the other. -/
def chain : List SyntaxNode → SyntaxNode
  | [] => null
  | x :: xs => append x (chain xs)

@[simp] theorem append_null (x : SyntaxNode) : append x null = x := by
  induction x with
  | null => rfl
  | node type val child next _ ih => rw [append, ih]

theorem append_assoc (x y z : SyntaxNode) : append (append x y) z = append x (append y z) := by
  induction x with
  | null => rfl
  | node type val child next _ ih => rw [append, append, append, ih]

@[simp] theorem chain_nil : chain [] = null := rfl

@[simp] theorem chain_singleton (x : SyntaxNode) : chain [x] = x := append_null x

@[simp] theorem chain_cons (x : SyntaxNode) (xs : List SyntaxNode) :
    chain (x :: xs) = append x (chain xs) := rfl

theorem chain_append (xs ys : List SyntaxNode) :
    chain (xs ++ ys) = append (chain xs) (chain ys) := by
  induction xs with
  | nil => rfl
  | cons x xs ih => rw [List.cons_append, chain_cons, chain_cons, ih, append_assoc]

@[simp] theorem addChildren_node (type : SyntaxNodeType) (val : Option StdString)
    (child next added : SyntaxNode) :
    addChildren (node type val child next) added = node type val (append child added) next := by
  cases child with
  | null => rfl
  | node type' val' child' next' => rfl

/-- Both cases of `SyntaxNodeAddSibling` where it returns at once are cases of
appending, unless it is to a null pointer. -/
@[simp] theorem addSibling_node (type : SyntaxNodeType) (val : Option StdString)
    (child next sib : SyntaxNode) :
    addSibling (node type val child next) sib = node type val child (append next sib) := by
  cases sib with
  | null => rw [append_null]; rfl
  | node type' val' child' next' => rfl

end SyntaxNode

end MiniSql.Parser
