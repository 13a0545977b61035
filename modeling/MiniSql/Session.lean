import MiniSql.CurrentDatabase
import MiniSql.ParseText

/-!
# A session

`main` reads commands from the input, up to their semicolon, parses them, and hands their
trees to `Execute`, until a command `quit`; `execfile` stands for the commands of a file.

Whatever the input is, the databases are only ever changed by the statements of commands
(`mainLoop_statements`): a text that the parser does not accept is executed as the command
that it begins with, or not at all. And an input that is a script, with the answers to the
questions of `PrintTable` where they are asked, is executed command by command
(`mainLoop_script`).
-/

namespace MiniSql.Parser

open MaximalMunch Command

/-! ## The statement of a tree -/

/-- What `Execute` does with a tree; the names of databases are read through the pointers in
it. -/
def statementOf (ast : SyntaxNode) : Option (EngineStatement SyntaxNode) :=
  match ast.type with
  | some .createDB => ast.child.val.map .createDatabase
  | some .dropDB => ast.child.val.map .dropDatabase
  | some .showDB => some .showDatabases
  | some .useDB => ast.child.val.map .useDatabase
  | some .showTables => some (.onTables .showTables ast)
  | some .createTable => some (.onTables .createTable ast)
  | some .dropTable => some (.onTables .dropTable ast)
  | some .showIndexes => some (.onTables .showIndexes ast)
  | some .createIndex => some (.onTables .createIndex ast)
  | some .dropIndex => some (.onTables .dropIndex ast)
  | some .select => some (.onTables .select ast)
  | some .insert => some (.onTables .insert ast)
  | some .delete => some (.onTables .delete ast)
  | some .update => some (.onTables .update ast)
  | some .trxBegin => some .trxBegin
  | some .trxCommit => some .trxCommit
  | some .trxRollback => some .trxRollback
  | some .execFile => some .execFile
  | some .quit => some .quit
  | _ => some .unknown

/-- The statement of a command. -/
def Command.statement (c : Command) : EngineStatement SyntaxNode :=
  match c with
  | .createDatabase n => .createDatabase n
  | .dropDatabase n => .dropDatabase n
  | .showDatabases => .showDatabases
  | .useDatabase n => .useDatabase n
  | .showTables => .onTables .showTables c.node
  | .createTable _ _ => .onTables .createTable c.node
  | .dropTable _ => .onTables .dropTable c.node
  | .createIndex _ _ _ _ => .onTables .createIndex c.node
  | .dropIndex _ => .onTables .dropIndex c.node
  | .showIndexes => .onTables .showIndexes c.node
  | .select _ _ _ => .onTables .select c.node
  | .insert _ _ => .onTables .insert c.node
  | .delete _ _ => .onTables .delete c.node
  | .update _ _ _ => .onTables .update c.node
  | .trxBegin => .trxBegin
  | .trxCommit => .trxCommit
  | .trxRollback => .trxRollback
  | .quit => .quit
  | .execFile _ => .execFile

theorem statementOf_node (c : Command) : statementOf c.node = some c.statement := by
  cases c <;> rfl

/-! ## Reading the input -/

/-- `buf_size` -/
def bufSize : ℕ := 1024

/-- The loop of `InputCommand`, with so many places left before the last one, and the
`getchar` behind it: the command, and what is left of the input. At the end of the input
the loop goes on, behind the buffer. -/
def inputCommand : ℕ → List UInt8 → Option (StdString × List UInt8)
  | 0, _ => none
  | _ + 1, [] => none
  | n + 1, ch :: input =>
    if ch = 59 then some ([ch], input.drop 1)
    else (inputCommand n input).map (fun r => (ch :: r.1, r.2))

/-- The loop of `PrintTable` over pages of 30 rows: what is left of the input behind the
answers to its questions. -/
def printTable (rowNum : ℕ) : List UInt8 → List UInt8
  | [] => []
  | ch :: input =>
    if rowNum ≤ 30 then ch :: input
    else if ch = 113 then input.drop 1
    else printTable (rowNum - 30) input

/-- What is left open: the engines, the tables that they print, and the files. -/
structure Environment (E : Type) where
  /-- The engines. -/
  engines : Engines E SyntaxNode
  /-- The number of rows that `ExecuteSelect` or `ExecuteShowIndexes` hands to
  `PrintTable`. -/
  rowNum : StatementOnTables → SyntaxNode → E → ℕ
  /-- What is in a file, if it can be opened. The files stay as they are: only `PrintTable`
  writes one, `result.txt`, which is taken not to be executed. -/
  files : StdString → Option (List UInt8)

/-- The state of `main`. -/
structure Session (E : Type) where
  /-- `engine` -/
  databases : Databases E
  /-- What is left of the input. -/
  input : List UInt8
  /-- `yylval` -/
  yylval : SyntaxNode

variable {E : Type} (m : Environment E)

/-- The number of rows that a statement hands to `PrintTable`. -/
def Environment.shown (d : Databases E) : EngineStatement SyntaxNode → ℕ
  | .onTables kind ast =>
    if (kind = .select ∨ kind = .showIndexes) ∧ d.currentDb ≠ [] then
      ((d.dbs.lookup d.currentDb).bind id).elim 0 (m.rowNum kind ast)
    else 0
  | _ => 0

namespace Session

/-- `Execute` -/
def execute (s : Session E) (ast : SyntaxNode) : Option (Session E) := do
  let i ← statementOf ast
  let (databases, _) ← Databases.step m.engines s.databases i
  return ⟨databases, printTable (m.shown s.databases i) s.input, s.yylval⟩

/-- `yy_scan_string`, `MinisqlParserInit` and `yyparse`: the root. There are never more
rounds than these. -/
def parse (s : Session E) (cmd : StdString) : Option (Session E × SyntaxNode) := do
  let (parsed, _) ← parseBuffer (enoughRounds bufSize) s.yylval (cmd ++ [0])
  return ({ s with yylval := parsed.yylval }, parsed.root)

/-- A round of the loop over a file. `getline` gives a piece without its semicolon, and
`strcat` puts it behind what comes before a zero; there must be room for both. -/
def executePiece (s : Session E) (piece : List UInt8) : Option (Session E) :=
  if piece.length < bufSize ∧ (yyScanString piece).length + 2 ≤ bufSize then do
    let (s, root) ← s.parse (yyScanString piece ++ [59])
    s.execute m root
  else none

/-- The loop over a file: the last piece ends with the file. -/
def executeFile (s : Session E) (file : List UInt8) : Option (Session E) :=
  (file.splitOn 59).foldlM (executePiece m) s

/-- What a round of `main` does with the root, and whether it is the last one. -/
def executeRoot (s : Session E) (root : SyntaxNode) : Option (Session E × Bool) :=
  match root.type with
  | none => some (s, false)
  | some .execFile => do
    let name ← root.child.val
    match m.files name with
    | none => return (s, false)
    | some file => return (← s.executeFile m file, false)
  | some type => do
    let s ← s.execute m root
    return (s, type = .quit)

/-- A round of `main`, and whether it is the last one. -/
def mainRound (s : Session E) : Option (Session E × Bool) := do
  let (cmd, input) ← inputCommand (bufSize - 1) s.input
  let (s, root) ← { s with input := input }.parse cmd
  s.executeRoot m root

/-- `main`, for so many rounds at most: the databases in the end. -/
def mainLoop : ℕ → Session E → Option (Databases E)
  | 0, _ => none
  | n + 1, s =>
    match s.mainRound m with
    | none => none
    | some (s, true) => some s.databases
    | some (s, false) => mainLoop n s

variable {m} {s s' : Session E} {d d' : Databases E} {c : Command} {cmd : StdString}
  {n : ℕ} {rest : List UInt8}

/-! ## What is executed -/

/-- The semicolon is found. -/
theorem inputCommand_eq {body : StdString} (h : 59 ∉ body) (hn : body.length < n)
    (rest : List UInt8) :
    inputCommand n (body ++ 59 :: rest) = some (body ++ [59], rest.drop 1) := by
  induction body generalizing n with
  | nil =>
    obtain ⟨n, rfl⟩ := Nat.exists_eq_succ_of_ne_zero (Nat.ne_of_gt hn)
    rfl
  | cons ch body ih =>
    obtain ⟨hch, hbody⟩ := not_or.mp (mt List.mem_cons.mpr h)
    obtain ⟨n, rfl⟩ := Nat.exists_eq_succ_of_ne_zero (Nat.ne_zero_of_lt hn)
    rw [List.cons_append, inputCommand, if_neg (Ne.symm hch),
      ih hbody (Nat.lt_of_succ_lt_succ hn)]
    rfl

/-- A command fits the buffer. -/
theorem length_inputCommand {input : List UInt8} (h : inputCommand n input = some (cmd, rest)) :
    cmd.length ≤ n := by
  induction n generalizing input cmd with
  | zero => cases h
  | succ n ih =>
    cases input with
    | nil => cases h
    | cons ch input =>
      rw [inputCommand] at h
      by_cases hch : ch = 59
      · rw [if_pos hch] at h
        cases h
        exact Nat.succ_le_succ (Nat.zero_le n)
      · rw [if_neg hch] at h
        obtain ⟨⟨cmd, rest⟩, hrest, heq⟩ := Option.map_eq_some_iff.mp h
        cases heq
        exact Nat.succ_le_succ (ih hrest)

/-- A page is printed without a question. -/
theorem printTable_of_le {rowNum : ℕ} (h : rowNum ≤ 30) (input : List UInt8) :
    printTable rowNum input = input := by
  cases input with
  | nil => rfl
  | cons ch input => exact if_pos h

theorem length_yyScanString_le (buffer : List UInt8) :
    (yyScanString buffer).length ≤ buffer.length :=
  (List.takeWhile_prefix _).length_le

/-- The zero behind a text does not matter. -/
theorem yyScanString_concat (cmd : StdString) : yyScanString (cmd ++ [0]) = yyScanString cmd := by
  unfold yyScanString
  induction cmd with
  | nil => rfl
  | cons ch cmd ih =>
    rw [List.cons_append, List.takeWhile_cons, List.takeWhile_cons, ih]

/-- **The root** is null, or the tree of a command. -/
theorem exists_parse (s : Session E) (h : (yyScanString cmd).length ≤ bufSize) :
    ∃ yylval root, s.parse cmd = some ({ s with yylval := yylval }, root) ∧
      (root = .null ∨ ∃ c : Command, root = c.node) := by
  obtain ⟨found, input, parsed, yyresult, -, -, hparse, -, -, hroot, -⟩ :=
    parseBuffer_command s.yylval (cmd ++ [0])
  refine ⟨parsed.yylval, parsed.root, ?_, hroot.imp_right ?_⟩
  · unfold parse
    rw [hparse _ (enoughRounds_mono (yyScanString_concat cmd ▸ h))]
    rfl
  · rintro ⟨c, rest, -, -, hc⟩
    exact ⟨c, hc⟩

/-- **A command** is executed as its statement. -/
theorem execute_node (s : Session E) (c : Command) : s.execute m c.node =
    (Databases.step m.engines s.databases c.statement).map (fun r =>
      ⟨r.1, printTable (m.shown s.databases c.statement) s.input, s.yylval⟩) := by
  unfold execute
  rw [statementOf_node, Option.bind_eq_bind, Option.bind_some]
  rcases Databases.step m.engines s.databases c.statement with _ | ⟨d, o⟩
  · rfl
  · rfl

/-- The null pointer is executed, too. -/
theorem execute_null (s : Session E) : s.execute m .null = some s := by
  have hprint : printTable 0 s.input = s.input := printTable_of_le (Nat.zero_le 30) s.input
  change some (⟨s.databases, printTable 0 s.input, s.yylval⟩ : Session E) = some s
  rw [hprint]

/-! ## What the input does -/

/-- The statements of commands, and what the null pointer stands for. -/
def IsStatement (i : EngineStatement SyntaxNode) : Prop :=
  i = .unknown ∨ ∃ c : Command, i = c.statement

/-- **The databases are changed by statements only.** -/
def Performs (m : Environment E) (d d' : Databases E) : Prop :=
  ∃ is answers, (∀ i ∈ is, IsStatement i) ∧
    Machine.run (Databases.step m.engines) d is = some (d', answers)

theorem Performs.refl (m : Environment E) (d : Databases E) : Performs m d d :=
  ⟨[], [], nofun, rfl⟩

theorem Performs.trans {d₁ d₂ d₃ : Databases E} (h : Performs m d₁ d₂) (h' : Performs m d₂ d₃) :
    Performs m d₁ d₃ := by
  obtain ⟨is, answers, his, hrun⟩ := h
  obtain ⟨is', answers', his', hrun'⟩ := h'
  refine ⟨is ++ is', answers ++ answers', List.forall_mem_append.mpr ⟨his, his'⟩, ?_⟩
  rw [Machine.run_append, hrun, Option.bind_some, hrun']
  rfl

/-- A tree of the parser is executed as a statement. -/
theorem performs_execute {root : SyntaxNode} (hroot : root = .null ∨ ∃ c : Command, root = c.node)
    (h : s.execute m root = some s') : Performs m s.databases s'.databases := by
  rcases hroot with rfl | ⟨c, rfl⟩
  · rw [execute_null] at h
    cases h
    exact .refl m _
  · rw [execute_node] at h
    obtain ⟨⟨d, answer⟩, hstep, rfl⟩ := Option.map_eq_some_iff.mp h
    refine ⟨[c.statement], [answer], ?_, Machine.run_cons hstep rfl⟩
    intro i hi
    cases List.mem_singleton.mp hi
    exact .inr ⟨c, rfl⟩

theorem performs_executePiece {piece : List UInt8} (h : s.executePiece m piece = some s') :
    Performs m s.databases s'.databases := by
  unfold executePiece at h
  by_cases hfits : piece.length < bufSize ∧ (yyScanString piece).length + 2 ≤ bufSize
  · rw [if_pos hfits] at h
    have hlength : (yyScanString (yyScanString piece ++ [59])).length ≤ bufSize := by
      refine (length_yyScanString_le _).trans ?_
      rw [List.length_append, List.length_singleton]
      omega
    obtain ⟨yylval, root, hparse, hroot⟩ := s.exists_parse hlength
    rw [hparse, Option.bind_eq_bind, Option.bind_some] at h
    exact performs_execute (s := { s with yylval := yylval }) hroot h
  · rw [if_neg hfits] at h
    cases h

theorem performs_executeFile {file : List UInt8} (h : s.executeFile m file = some s') :
    Performs m s.databases s'.databases := by
  unfold executeFile at h
  generalize file.splitOn 59 = pieces at h
  induction pieces generalizing s with
  | nil =>
    cases h
    exact .refl m _
  | cons piece pieces ih =>
    rw [List.foldlM_cons] at h
    obtain ⟨s₁, hpiece, hrest⟩ := Option.bind_eq_some_iff.mp h
    exact (performs_executePiece hpiece).trans (ih hrest)

theorem performs_executeRoot {root : SyntaxNode} {last : Bool}
    (hroot : root = .null ∨ ∃ c : Command, root = c.node)
    (h : s.executeRoot m root = some (s', last)) : Performs m s.databases s'.databases := by
  unfold executeRoot at h
  split at h
  · cases h
    exact .refl m _
  · obtain ⟨name, -, h⟩ := Option.bind_eq_some_iff.mp h
    split at h
    · cases h
      exact .refl m _
    · obtain ⟨s₁, hfile, h⟩ := Option.bind_eq_some_iff.mp h
      cases h
      exact performs_executeFile hfile
  · obtain ⟨s₁, hexecute, h⟩ := Option.bind_eq_some_iff.mp h
    cases h
    exact performs_execute hroot hexecute

theorem performs_mainRound {last : Bool} (h : s.mainRound m = some (s', last)) :
    Performs m s.databases s'.databases := by
  unfold mainRound at h
  obtain ⟨⟨cmd, input⟩, hcmd, h⟩ := Option.bind_eq_some_iff.mp h
  have hlength : (yyScanString cmd).length ≤ bufSize := by
    have hle := (length_yyScanString_le cmd).trans (length_inputCommand hcmd)
    unfold bufSize at hle ⊢
    omega
  obtain ⟨yylval, root, hparse, hroot⟩ := exists_parse { s with input := input } hlength
  dsimp only at h
  rw [hparse, Option.bind_eq_bind, Option.bind_some] at h
  exact performs_executeRoot (s := ⟨s.databases, input, yylval⟩) hroot h

/-- **Every input**, with files that stay as they are during the session. -/
theorem mainLoop_statements (h : s.mainLoop m n = some d) : Performs m s.databases d := by
  induction n generalizing s with
  | zero => cases h
  | succ n ih =>
    rw [mainLoop] at h
    split at h
    · cases h
    · rename_i s₁ hround
      cases h
      exact performs_mainRound hround
    · rename_i s₁ hround
      exact (performs_mainRound hround).trans (ih h)

end Session

/-! ## Scripts -/

/-- A command that is written down, up to its semicolon. -/
structure Line where
  /-- The command. -/
  command : Command
  /-- What stands before the semicolon. -/
  body : StdString
  /-- How it is laid out. -/
  layout : Layout
  /-- The text, with the semicolon. -/
  text_eq : layout.text = body ++ [59]
  /-- The lexemes are those of the command. -/
  lexemes_eq : layout.lexemes = phrase.lexemes command
  /-- The command finds place on the stack. -/
  places_le : phrase.places command ≤ places
  /-- There is one semicolon only. -/
  notMem : 59 ∉ body
  /-- The text fits the buffer. -/
  length_lt : body.length + 1 < bufSize

/-- Commands in a file, with blanks behind them. -/
structure Script (file : List UInt8) where
  /-- The commands. -/
  lines : List Line
  /-- The blanks. -/
  last : StdString
  /-- The text. -/
  text_eq : file = lines.flatMap (fun l => l.body ++ [59]) ++ last
  /-- There are only blanks behind the commands. -/
  blank : IsBlank last
  /-- These fit the buffer, too. -/
  length_lt : last.length + 1 < bufSize

/-- A statement, with the answers to the questions of `PrintTable`. -/
abbrev Asked := EngineStatement SyntaxNode × List UInt8

/-- **The statements of a command** in the input: those of a file for `execfile`, where there
is one. -/
inductive StandsFor (m : Environment E) : Command → List Asked → Prop
  | command {c : Command} (answers : List UInt8) (hfile : ∀ name, c ≠ .execFile name) :
      StandsFor m c [(c.statement, answers)]
  | missing {name : StdString} (hfile : m.files ((name.drop 1).take (name.length - 2)) = none) :
      StandsFor m (.execFile name) []
  | file {name : StdString} {file : List UInt8} {asked : List Asked}
      (hfile : m.files ((name.drop 1).take (name.length - 2)) = some file) (script : Script file)
      (hasked : asked.map Prod.fst = script.lines.map (fun l => l.command.statement)) :
      StandsFor m (.execFile name) asked

/-- A command in the input. -/
structure Entry (m : Environment E) where
  /-- The command. -/
  line : Line
  /-- The character behind it, which is dropped. -/
  enter : UInt8
  /-- Its statements, with the answers to their questions. -/
  asked : List Asked
  /-- They are those of the command. -/
  standsFor : StandsFor m line.command asked
  /-- It is another one than `quit`. -/
  ne_quit : line.command ≠ .quit

/-- The text of a command in the input. -/
def Entry.text {m : Environment E} (x : Entry m) : List UInt8 :=
  x.line.body ++ 59 :: x.enter :: x.asked.flatMap Prod.snd

/-- `Execute`, of a statement with its answers. -/
def Environment.step (m : Environment E) (d : Databases E) (x : Asked) :
    Option (Databases E × Bool) :=
  Databases.step m.engines d x.1

/-- **The answers are those that `PrintTable` asks for.** -/
def Environment.Answers (m : Environment E) (d : Databases E) (x : Asked) : Prop :=
  ∀ rest, printTable (m.shown d x.1) (x.2 ++ rest) = rest

namespace Session

variable {m : Environment E} {s : Session E} {c : Command} {rest : List UInt8}

/-- **A line is parsed as its command.** -/
theorem exists_parse_line (s : Session E) (l : Line) :
    ∃ yylval, s.parse (l.body ++ [59]) = some ({ s with yylval := yylval }, l.command.node) := by
  have htext : yyScanString (l.body ++ [59] ++ [0]) = l.layout.text := by
    rw [← l.text_eq]
    exact yyScanString_append
      (Layout.noZero_textOf l.layout.written l.layout.blank l.layout.blank_last) []
  obtain ⟨parsed, hparse, hroot, -⟩ :=
    parseBuffer_layout s.yylval l.lexemes_eq l.places_le htext
  have hlength : l.layout.text.length ≤ bufSize := by
    rw [l.text_eq, List.length_append, List.length_singleton]
    exact l.length_lt.le
  refine ⟨parsed.yylval, ?_⟩
  unfold parse
  rw [hparse _ (enoughRounds_mono hlength), ← hroot]
  rfl

/-- **A text that begins with no command** is parsed as the null pointer. -/
theorem exists_parse_null (s : Session E) (L : Layout) {body : StdString}
    (htext : L.text = body ++ [59]) (hlength : body.length + 1 < bufSize)
    (hno : ∀ (c : Command) (rest : List Lexeme), L.lexemes ≠ phrase.lexemes c ++ rest) :
    ∃ yylval, s.parse (body ++ [59]) = some ({ s with yylval := yylval }, .null) := by
  have hscan : yyScanString (body ++ [59] ++ [0]) = L.text := by
    rw [← htext]
    exact yyScanString_append (Layout.noZero_textOf L.written L.blank L.blank_last) []
  obtain ⟨found, input, parsed, yyresult, hscans, rfl, hparse, -, -, hroot, -⟩ :=
    parseBuffer_command s.yylval (body ++ [59] ++ [0])
  have hlexemes : lexemes (found.filterMap finds) = L.lexemes := by
    obtain ⟨found', hscans', heq⟩ :=
      Layout.scans_textOf L.written L.blank L.apart L.blank_last
    rw [hscan] at hscans
    cases hscans.unique hscans'
    rw [heq, lexemes, List.filterMap_map]
    exact congrFun List.filterMap_eq_map' L.pieces
  have hnull : parsed.root = .null := by
    refine hroot.resolve_right ?_
    rintro ⟨c, rest, hc, -, -⟩
    exact hno c rest (hlexemes.symm.trans hc)
  refine ⟨parsed.yylval, ?_⟩
  unfold parse
  rw [hparse _ (enoughRounds_mono ?_), ← hnull]
  · rfl
  · rw [hscan, htext, List.length_append, List.length_singleton]
    exact hlength.le

/-- A statement is executed with its answers. -/
theorem execute_answers {x : Asked} (hc : c.statement = x.1) (hx : m.Answers s.databases x)
    (hinput : s.input = x.2 ++ rest) :
    s.execute m c.node = (m.step s.databases x).map (fun r => ⟨r.1, rest, s.yylval⟩) := by
  rw [execute_node, hc, hinput, hx rest]
  rfl

/-- A line has no zeros. -/
theorem yyScanString_body (l : Line) : yyScanString l.body = l.body := by
  have hzero := Layout.noZero_textOf l.layout.written l.layout.blank l.layout.blank_last
  change NoZero l.layout.text at hzero
  rw [l.text_eq] at hzero
  refine List.takeWhile_eq_self_iff.mpr (fun ch hch => decide_eq_true ?_)
  exact hzero ch (List.mem_append_left _ hch)

/-- **A line of a file.** -/
theorem executePiece_line (s : Session E) (l : Line) {x : Asked} (hl : l.command.statement = x.1)
    (hx : m.Answers s.databases x) (hinput : s.input = x.2 ++ rest) :
    ∃ yylval, s.executePiece m l.body =
      (m.step s.databases x).map (fun r => ⟨r.1, rest, yylval⟩) := by
  obtain ⟨yylval, hparse⟩ := s.exists_parse_line l
  have hlength := l.length_lt
  refine ⟨yylval, ?_⟩
  unfold executePiece
  rw [yyScanString_body, if_pos ⟨by omega, by omega⟩, hparse, Option.bind_eq_bind,
    Option.bind_some]
  exact execute_answers (s := { s with yylval := yylval }) hl hx hinput

/-- A semicolon alone is no command. -/
theorem lexemes_ne_semicolon (c : Command) (rest : List Lexeme) :
    [Lexeme.fixed .semicolon] ≠ phrase.lexemes c ++ rest := by
  intro h
  have hbody : c.body ≠ [] := by
    cases c <;> exact List.cons_ne_nil _ _
  have hlength := congrArg List.length h
  change 1 = (c.body ++ [Lexeme.fixed .semicolon] ++ rest).length at hlength
  rw [List.length_append, List.length_append, List.length_singleton] at hlength
  have hpos := List.length_pos_iff.mpr hbody
  omega

/-- Blanks before a semicolon. -/
def blankLayout (last : StdString) (h : IsBlank last) : Layout where
  pieces := [(last, .fixed .semicolon)]
  last := []
  written := by
    intro x hx
    cases List.mem_singleton.mp hx
    exact written_fixed rfl
  blank := by
    intro x hx
    cases List.mem_singleton.mp hx
    exact h
  apart := .singleton _
  blank_last := isBlank_nil

/-- **The end of a file** is executed as the null pointer. -/
theorem executePiece_blank (s : Session E) {last : StdString} (hblank : IsBlank last)
    (hlength : last.length + 1 < bufSize) :
    ∃ yylval, s.executePiece m last = some { s with yylval := yylval } := by
  have hlast : yyScanString last = last :=
    List.takeWhile_eq_self_iff.mpr (fun ch hch => decide_eq_true (hblank.noZero ch hch))
  obtain ⟨yylval, hrun⟩ := s.exists_parse_null (blankLayout last hblank) rfl
    hlength lexemes_ne_semicolon
  refine ⟨yylval, ?_⟩
  unfold executePiece
  rw [hlast, if_pos ⟨by omega, by omega⟩, hrun, Option.bind_eq_bind, Option.bind_some]
  exact execute_null _

/-- The pieces of a file. -/
theorem splitOn_script {file : List UInt8} (script : Script file) :
    file.splitOn 59 = script.lines.map Line.body ++ [script.last] := by
  have hlast : 59 ∉ script.last := by
    intro h
    have hmem := mem_of_blank (script.blank 59 h)
    revert hmem
    decide
  refine (congrArg (List.splitOn 59) script.text_eq).trans ?_
  generalize script.lines = lines
  induction lines with
  | nil => exact List.splitOn_eq_singleton hlast
  | cons l lines ih =>
    rw [List.flatMap_cons, List.append_assoc, List.append_assoc, List.singleton_append,
      List.splitOn_append_cons_self_of_not_mem l.notMem, ih]
    rfl

/-- **A file is executed command by command.** -/
theorem executeFile_script {file : List UInt8} (script : Script file) {asked : List Asked}
    (hasked : asked.map Prod.fst = script.lines.map (fun l => l.command.statement))
    (hmeets : Machine.Meets m.step m.Answers s.databases asked)
    (hinput : s.input = asked.flatMap Prod.snd ++ rest) :
    ∃ yylval, s.executeFile m file =
      (Machine.run m.step s.databases asked).map (fun r => ⟨r.1, rest, yylval⟩) := by
  unfold executeFile
  rw [splitOn_script script]
  generalize script.lines = lines at hasked
  induction asked generalizing s lines with
  | nil =>
    cases List.map_eq_nil_iff.mp hasked.symm
    obtain ⟨yylval, hpiece⟩ := s.executePiece_blank (m := m) script.blank script.length_lt
    refine ⟨yylval, ?_⟩
    cases hinput
    rw [List.map_nil, List.nil_append, List.foldlM_cons, hpiece]
    rfl
  | cons x asked ih =>
    cases lines with
    | nil => cases hasked
    | cons l lines =>
      obtain ⟨hl, hlines⟩ := List.cons.inj hasked
      rw [List.flatMap_cons, List.append_assoc] at hinput
      obtain ⟨yylval, hpiece⟩ := executePiece_line s l hl.symm hmeets.1 hinput
      rw [List.map_cons, List.cons_append, List.foldlM_cons, hpiece, Machine.run]
      cases hstep : m.step s.databases x with
      | none => exact ⟨yylval, rfl⟩
      | some r =>
        obtain ⟨d, answer⟩ := r
        obtain ⟨yylval', hrest⟩ := ih (s := ⟨d, asked.flatMap Prod.snd ++ rest, yylval⟩)
          (hmeets.2 d answer hstep) rfl lines hlines
        refine ⟨yylval', ?_⟩
        rw [Option.map_some, Option.bind_eq_bind, Option.bind_some, hrest]
        dsimp only
        rcases Machine.run m.step d asked with _ | ⟨d', answers⟩
        · rfl
        · rfl

/-- A command other than `quit` and `execfile` is executed. -/
theorem executeRoot_node (s : Session E) (hfile : ∀ name, c ≠ .execFile name) (hquit : c ≠ .quit) :
    s.executeRoot m c.node = (s.execute m c.node).map (fun s => (s, false)) := by
  have hbind : ∀ r : Option (Session E),
      (r >>= fun s => some (s, false)) = r.map (fun s => (s, false)) := by
    intro r
    cases r <;> rfl
  cases c with
  | quit => exact absurd rfl hquit
  | execFile name => exact absurd rfl (hfile name)
  | _ => exact hbind _

/-- **The statements of a command** are executed, with their answers. -/
theorem executeRoot_standsFor {asked : List Asked} (h : StandsFor m c asked) (hquit : c ≠ .quit)
    (hmeets : Machine.Meets m.step m.Answers s.databases asked)
    (hinput : s.input = asked.flatMap Prod.snd ++ rest) :
    ∃ yylval, s.executeRoot m c.node =
      (Machine.run m.step s.databases asked).map (fun r => (⟨r.1, rest, yylval⟩, false)) := by
  cases h with
  | command answers hfile =>
    refine ⟨s.yylval, ?_⟩
    rw [List.flatMap_singleton] at hinput
    rw [executeRoot_node s hfile hquit, execute_answers rfl hmeets.1 hinput, Machine.run]
    rcases m.step s.databases (c.statement, answers) with _ | ⟨d, answer⟩
    · rfl
    · rfl
  | @missing name hfile =>
    refine ⟨s.yylval, ?_⟩
    cases hinput
    change (match m.files ((name.drop 1).take (name.length - 2)) with
      | none => some (s, false)
      | some file => (s.executeFile m file).bind (fun s => some (s, false))) = some (s, false)
    rw [hfile]
  | @file name file asked hfile script hasked =>
    obtain ⟨yylval, hrun⟩ := executeFile_script script hasked hmeets hinput
    refine ⟨yylval, ?_⟩
    change (match m.files ((name.drop 1).take (name.length - 2)) with
      | none => some (s, false)
      | some file => (s.executeFile m file).bind (fun s => some (s, false))) = _
    rw [hfile]
    dsimp only
    rw [hrun]
    rcases Machine.run m.step s.databases asked with _ | r
    · rfl
    · rfl

/-- **A command of the input.** -/
theorem mainRound_entry (x : Entry m) (hmeets : Machine.Meets m.step m.Answers s.databases x.asked)
    (hinput : s.input = x.text ++ rest) :
    ∃ yylval, s.mainRound m =
      (Machine.run m.step s.databases x.asked).map (fun r => (⟨r.1, rest, yylval⟩, false)) := by
  have hcmd : inputCommand (bufSize - 1) s.input =
      some (x.line.body ++ [59], x.asked.flatMap Prod.snd ++ rest) := by
    rw [hinput, Entry.text, List.append_assoc, List.cons_append,
      inputCommand_eq x.line.notMem (Nat.lt_sub_of_add_lt x.line.length_lt)]
    rfl
  obtain ⟨yylval, hparse⟩ :=
    exists_parse_line { s with input := x.asked.flatMap Prod.snd ++ rest } x.line
  obtain ⟨yylval', hrun⟩ := executeRoot_standsFor
    (s := ⟨s.databases, x.asked.flatMap Prod.snd ++ rest, yylval⟩) x.standsFor x.ne_quit hmeets rfl
  refine ⟨yylval', ?_⟩
  unfold mainRound
  rw [hcmd, Option.bind_eq_bind, Option.bind_some]
  dsimp only
  rw [hparse]
  exact hrun

/-- `quit` ends the session. -/
theorem mainRound_quit (l : Line) (hl : l.command = .quit)
    (hinput : s.input = l.body ++ 59 :: rest) :
    ∃ s', s.mainRound m = some (s', true) ∧ s'.databases = s.databases := by
  have hcmd : inputCommand (bufSize - 1) s.input = some (l.body ++ [59], rest.drop 1) := by
    rw [hinput, inputCommand_eq l.notMem (Nat.lt_sub_of_add_lt l.length_lt)]
  obtain ⟨yylval, hparse⟩ := exists_parse_line { s with input := rest.drop 1 } l
  refine ⟨⟨s.databases, printTable 0 (rest.drop 1), yylval⟩, ?_, rfl⟩
  unfold mainRound
  rw [hcmd, Option.bind_eq_bind, Option.bind_some]
  dsimp only
  rw [hparse, hl]
  rfl

/-- A text that begins with no command does nothing. -/
theorem mainRound_null (L : Layout) {body : StdString} (htext : L.text = body ++ [59])
    (hmem : 59 ∉ body) (hlength : body.length + 1 < bufSize)
    (hno : ∀ (c : Command) (rest : List Lexeme), L.lexemes ≠ phrase.lexemes c ++ rest)
    (hinput : s.input = body ++ 59 :: rest) :
    ∃ yylval, s.mainRound m = some (⟨s.databases, rest.drop 1, yylval⟩, false) := by
  have hcmd : inputCommand (bufSize - 1) s.input = some (body ++ [59], rest.drop 1) := by
    rw [hinput, inputCommand_eq hmem (Nat.lt_sub_of_add_lt hlength)]
  obtain ⟨yylval, hparse⟩ :=
    exists_parse_null { s with input := rest.drop 1 } L htext hlength hno
  refine ⟨yylval, ?_⟩
  unfold mainRound
  rw [hcmd, Option.bind_eq_bind, Option.bind_some]
  dsimp only
  rw [hparse]
  rfl

/-- **A script is executed command by command**, up to its `quit`, and ends where its
statements lead to, those of the files among them, which stay as they are during the session.
It does not end if one of them gets stuck. -/
theorem mainLoop_script (entries : List (Entry m)) (last : Line) (hlast : last.command = .quit)
    (hmeets : Machine.Meets m.step m.Answers s.databases (entries.flatMap Entry.asked))
    (hinput : s.input = entries.flatMap Entry.text ++ (last.body ++ 59 :: rest)) {n : ℕ}
    (hn : entries.length < n) :
    s.mainLoop m n = (Machine.run (Databases.step m.engines) s.databases
      ((entries.flatMap Entry.asked).map Prod.fst)).map Prod.fst := by
  rw [Machine.run_map]
  change s.mainLoop m n =
    (Machine.run m.step s.databases (entries.flatMap Entry.asked)).map Prod.fst
  induction entries generalizing s n with
  | nil =>
    obtain ⟨n, rfl⟩ := Nat.exists_eq_succ_of_ne_zero (Nat.ne_zero_of_lt hn)
    obtain ⟨s', hround, hdatabases⟩ := mainRound_quit (m := m) last hlast hinput
    rw [mainLoop, hround]
    exact congrArg some hdatabases
  | cons x entries ih =>
    obtain ⟨n, rfl⟩ := Nat.exists_eq_succ_of_ne_zero (Nat.ne_zero_of_lt hn)
    rw [List.flatMap_cons] at hmeets hinput ⊢
    obtain ⟨hfirst, hmore⟩ := hmeets.of_append
    rw [List.append_assoc] at hinput
    obtain ⟨yylval, hround⟩ := mainRound_entry x hfirst hinput
    rw [mainLoop, hround, Machine.run_append]
    rcases hrun : Machine.run m.step s.databases x.asked with _ | ⟨d, answers⟩
    · rfl
    · dsimp only [Option.map_some, Option.bind_some]
      rw [ih (s := ⟨d, _, yylval⟩) (hmore d answers hrun) rfl (Nat.lt_of_succ_lt_succ hn)]
      rcases Machine.run m.step d (entries.flatMap Entry.asked) with _ | r
      · rfl
      · rfl

end Session

section Example

/-- Lexemes with blanks between them and before the semicolon. -/
def spacedLine (c : Command) (body : StdString) (hwritten : ∀ l ∈ phrase.lexemes c, l.Written)
    (htext : (Layout.spaced _ hwritten).text = body ++ [59]) (hplaces : phrase.places c ≤ places)
    (hmem : 59 ∉ body) (hlength : body.length + 1 < bufSize) : Line where
  command := c
  body := body
  layout := .spaced _ hwritten
  text_eq := htext
  lexemes_eq := List.map_map.trans (List.map_id _)
  places_le := hplaces
  notMem := hmem
  length_lt := hlength

/-- The name `a`. -/
theorem written_a : (Lexeme.identifier [97]).Written := by
  refine written_identifier_iff.mpr ⟨rfl, (by intro a ha; cases ha), fun t => ?_⟩
  have hall : ∀ t ∈ Token.all, t.spelling ≠ some [97] := by decide +kernel
  exact hall t t.mem_all

/-- `create database a` -/
def createLine : Line :=
  spacedLine (.createDatabase [97]) (text " create database a ")
    (by
      intro l hl
      change l ∈ [Lexeme.fixed .CREATE, .fixed .DATABASE, .identifier [97], .fixed .semicolon] at hl
      simp only [List.mem_cons, List.not_mem_nil, or_false] at hl
      rcases hl with rfl | rfl | rfl | rfl
      · exact written_fixed rfl
      · exact written_fixed rfl
      · exact written_a
      · exact written_fixed rfl)
    rfl (by decide) (by decide) (by decide)

/-- `execfile "f"` -/
def fileLine : Line :=
  spacedLine (.execFile [34, 102, 34]) (text " execfile \"f\" ")
    (by
      intro l hl
      change l ∈ [Lexeme.fixed .EXECFILE, .string [34, 102, 34], .fixed .semicolon] at hl
      simp only [List.mem_cons, List.not_mem_nil, or_false] at hl
      rcases hl with rfl | rfl | rfl
      · exact written_fixed rfl
      · exact ⟨by decide, by decide, by decide +kernel⟩
      · exact written_fixed rfl)
    rfl (by decide) (by decide) (by decide)

/-- `quit` -/
def quitLine : Line :=
  spacedLine .quit (text " quit ")
    (by
      intro l hl
      rcases List.mem_pair.mp hl with rfl | rfl
      · exact written_fixed rfl
      · exact written_fixed rfl)
    rfl (by decide) (by decide) (by decide)

/-- Engines that count, and one file, which creates a database. -/
def oneFile : Environment ℕ where
  engines := ⟨fun _ _ => 0, fun _ => false, fun _ _ n => some (n + 1, true)⟩
  rowNum _ _ _ := 0
  files name := if name = [102] then some (createLine.body ++ [59, 10]) else none

/-- The file. -/
def createScript : Script (createLine.body ++ [59, 10]) where
  lines := [createLine]
  last := [10]
  text_eq := rfl
  blank := by
    intro c hc
    cases List.mem_singleton.mp hc
    rfl
  length_lt := by decide

/-- The file as a command. -/
def fileEntry : Entry oneFile where
  line := fileLine
  enter := 10
  asked := [(.createDatabase [97], [])]
  standsFor := .file rfl createScript rfl
  ne_quit := by
    intro h
    cases h

/-- `a a`, which is no command. -/
def twoNames : Layout :=
  .spaced [.identifier [97], .identifier [97], .fixed .semicolon] (by
    intro l hl
    simp only [List.mem_cons, List.not_mem_nil, or_false] at hl
    rcases hl with rfl | rfl | rfl
    · exact written_a
    · exact written_a
    · exact written_fixed rfl)

/-- A session with a text that is no command, a file, which creates a database, and `quit`. -/
def typed : Session ℕ :=
  ⟨⟨∅, []⟩, text " a a " ++ 59 :: 10 :: (fileEntry.text ++ (quitLine.body ++ [59, 10])), .null⟩

/-- It ends, with a database that statements have made. -/
theorem Session.mainLoop_statements_typed :
    ∃ d, typed.mainLoop oneFile 3 = some d ∧ d.listFile = [[97]] ∧
      Session.Performs oneFile typed.databases d := by
  have hno : ∀ (c : Command) (rest : List Lexeme),
      twoNames.lexemes ≠ phrase.lexemes c ++ rest := by
    intro c rest h
    cases c <;> cases (List.cons.inj h).1
  obtain ⟨yylval, hfirst⟩ := Session.mainRound_null (m := oneFile) (s := typed) twoNames rfl
    (by decide) (by decide) hno rfl
  have hanswers : Machine.Meets oneFile.step oneFile.Answers ⟨∅, []⟩ fileEntry.asked :=
    ⟨fun rest => Session.printTable_of_le (Nat.zero_le 30) rest, fun _ _ _ => trivial⟩
  obtain ⟨yylval', hsecond⟩ := Session.mainRound_entry
    (s := ⟨⟨∅, []⟩, fileEntry.text ++ (quitLine.body ++ [59, 10]), yylval⟩) fileEntry hanswers rfl
  have hcreates : (Machine.run oneFile.step ⟨∅, []⟩ fileEntry.asked).map
      (fun r => r.1.listFile) = some [[97]] := rfl
  obtain ⟨⟨d, answers⟩, hd, hlist⟩ := Option.map_eq_some_iff.mp hcreates
  rw [hd, Option.map_some] at hsecond
  obtain ⟨s', hlast, hdatabases⟩ := Session.mainRound_quit (m := oneFile)
    (s := ⟨d, quitLine.body ++ [59, 10], yylval'⟩) quitLine rfl rfl
  have hends : typed.mainLoop oneFile 3 = some d := by
    rw [Session.mainLoop, hfirst]
    change Session.mainLoop oneFile 2
      ⟨⟨∅, []⟩, fileEntry.text ++ (quitLine.body ++ [59, 10]), yylval⟩ = some d
    rw [Session.mainLoop, hsecond]
    change Session.mainLoop oneFile 1 ⟨d, quitLine.body ++ [59, 10], yylval'⟩ = some d
    rw [Session.mainLoop, hlast]
    exact congrArg some hdatabases
  exact ⟨d, hends, hlist, Session.mainLoop_statements hends⟩

/-- Then there is a database. -/
theorem mainLoop_script_createLine :
    (Session.mainLoop oneFile 2 ⟨⟨∅, []⟩, fileEntry.text ++ (quitLine.body ++ [59, 10]), .null⟩).map
      Databases.listFile = some [[97]] := by
  have hmeets : Machine.Meets oneFile.step oneFile.Answers ⟨∅, []⟩
      ([fileEntry].flatMap Entry.asked) :=
    ⟨fun rest => Session.printTable_of_le (Nat.zero_le 30) rest, fun _ _ _ => trivial⟩
  rw [Session.mainLoop_script [fileEntry] quitLine rfl hmeets rfl (by decide)]
  rfl

end Example

end MiniSql.Parser
