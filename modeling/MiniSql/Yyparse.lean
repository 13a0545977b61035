import MiniSql.ParserItems

/-!
# The parser

`yyparse` of `minisql_yacc.c`: the stacks of states and values with the size that they
have been given, the token that has been read ahead, and the root that an action sets.
It asks `yylex` for a token only where the state needs one. What `yylex` finds in the
text is a list here: tokens, and characters that are none, which it reports and goes
on behind.

Every run is one of the automaton (`Simulates`), whose stack may have as many places as
`YYMAXDEPTH` leaves to it (`places`). So `yyparse` always returns, and what it returns
and leaves as the root is what the grammar says (`yyparse_spec`).
-/

namespace MiniSql.Parser

open Grammar ShiftReduce

/-! ## What the scanner gives -/

/-- The text of a token that has no other. -/
def Token.spelling : Token → Option StdString
  | CREATE => some (text "create")
  | DROP => some (text "drop")
  | SELECT => some (text "select")
  | INSERT => some (text "insert")
  | DELETE => some (text "delete")
  | UPDATE => some (text "update")
  | TRXBEGIN => some (text "begin")
  | TRXCOMMIT => some (text "commit")
  | TRXROLLBACK => some (text "rollback")
  | QUIT => some (text "quit")
  | EXECFILE => some (text "execfile")
  | SHOW => some (text "show")
  | USE => some (text "use")
  | USING => some (text "using")
  | DATABASE => some (text "database")
  | DATABASES => some (text "databases")
  | TABLE => some (text "table")
  | TABLES => some (text "tables")
  | INDEX => some (text "index")
  | INDEXES => some (text "indexes")
  | ON => some (text "on")
  | FROM => some (text "from")
  | WHERE => some (text "where")
  | INTO => some (text "into")
  | SET => some (text "set")
  | VALUES => some (text "values")
  | PRIMARY => some (text "primary")
  | KEY => some (text "key")
  | UNIQUE => some (text "unique")
  | CHAR => some (text "char")
  | INT => some (text "int")
  | FLOAT => some (text "float")
  | AND => some (text "and")
  | OR => some (text "or")
  | NOT => some (text "not")
  | IS => some (text "is")
  | FLAGNULL => some (text "null")
  | IDENTIFIER => none
  | STRING => none
  | NUMBER => none
  | EQ => some (text "=")
  | NE => some (text "<>")
  | LE => some (text "<=")
  | GE => some (text ">=")
  | semicolon => some (text ";")
  | leftParenthesis => some (text "(")
  | rightParenthesis => some (text ")")
  | comma => some (text ",")
  | asterisk => some (text "*")
  | lessThan => some (text "<")
  | greaterThan => some (text ">")
  | apostrophe => some (text "'")

/-- A token with its text. -/
structure Lexeme where
  /-- What `yylex` returns. -/
  token : Token
  /-- `yytext` -/
  yytext : StdString
  /-- Most tokens have one text only. -/
  spelled : ∀ s ∈ token.spelling, yytext = s

namespace Lexeme

theorem ext_iff {l l' : Lexeme} : l = l' ↔ l.token = l'.token ∧ l.yytext = l'.yytext := by
  constructor
  · rintro rfl
    exact ⟨rfl, rfl⟩
  · rintro ⟨htoken, htext⟩
    cases l
    cases l'
    cases htoken
    cases htext
    rfl

/-- A token that has one text only. -/
def fixed (token : Token) : Lexeme where
  token := token
  yytext := token.spelling.getD []
  spelled s hs := by rw [Option.mem_def.mp hs, Option.getD_some]

/-- An identifier. -/
def identifier (yytext : StdString) : Lexeme where
  token := .IDENTIFIER
  yytext := yytext
  spelled s hs := by cases hs

/-- A string, with its quotes. -/
def string (yytext : StdString) : Lexeme where
  token := .STRING
  yytext := yytext
  spelled s hs := by cases hs

/-- A number. -/
def number (yytext : StdString) : Lexeme where
  token := .NUMBER
  yytext := yytext
  spelled s hs := by cases hs

/-- The node that `yylex` makes of a token, for `yylval`. -/
def node (l : Lexeme) : Option SyntaxNode :=
  match l.token with
  | .IDENTIFIER => some (.create .identifier (some l.yytext))
  | .STRING => some (.create .string (some l.yytext))
  | .NUMBER => some (.create .number (some l.yytext))
  | _ => none

end Lexeme

/-- What `yylex` finds in the text: a token, or a character that begins none. -/
inductive Scanned
  | token (l : Lexeme)
  | unrecognized (yytext : StdString)

/-- The token, if it is one. -/
def Scanned.lexeme : Scanned → Option Lexeme
  | token l => some l
  | unrecognized _ => none

/-! ## The machine -/

/-- What `MinisqlParserSetError` is called with. -/
inductive ParserError
  | unrecognizedToken (yytext : StdString)
  | syntaxError
  | memoryExhausted

/-- The variables of `yyparse`, of `yylex` and of `parser.c`. -/
structure ParserState where
  /-- The stack of states, the top first. -/
  yyssp : List ℕ
  /-- The stack of values, the top first. -/
  yyvsp : List SyntaxNode
  /-- `yystacksize` -/
  yystacksize : ℕ
  /-- `yychar`: nothing for `YYEMPTY`, and no token for `YYEOF`. -/
  yychar : Option (Option Token)
  /-- `yylval` -/
  yylval : SyntaxNode
  /-- `yyerrstatus` -/
  yyerrstatus : ℕ
  /-- What is left of the text. -/
  input : List Scanned
  /-- `minisql_parser_root_node_` -/
  root : SyntaxNode
  /-- `minisql_parser_error_` and `minisql_parser_error_message_` -/
  error : Option ParserError

/-- `YYINITDEPTH` -/
def yyInitDepth : ℕ := 200

/-- `YYMAXDEPTH` -/
def yyMaxDepth : ℕ := 10000

namespace ParserState

/-- `MinisqlParserSetError`: the first error stays. -/
def setError (s : ParserState) (e : ParserError) : ParserState :=
  if s.error.isSome then s else { s with error := some e }

/-- `yylex`: the next token. -/
def yylex (s : ParserState) : List Scanned → ParserState
  | [] => { s with yychar := some none, input := [] }
  | .token l :: input =>
    { s with yychar := some (some l.token), yylval := l.node.getD s.yylval, input := input }
  | .unrecognized yytext :: input => (s.setError (.unrecognizedToken yytext)).yylex input

end ParserState

/-- `yysetstate`: the stacks grow, or are as high as they may be. -/
def yysetstate (s : ParserState) : ParserState ⊕ ParserState × ℕ :=
  if s.yystacksize ≤ s.yyssp.length then
    if yyMaxDepth ≤ s.yystacksize then .inr (s.setError .memoryExhausted, 2)
    else
      let yystacksize := min (2 * s.yystacksize) yyMaxDepth
      if yystacksize ≤ s.yyssp.length then .inr ({ s with yystacksize := yystacksize }, 1)
      else .inl { s with yystacksize := yystacksize }
  else .inl s

/-- `yynewstate` -/
def yynewstate (yystate : ℕ) (s : ParserState) : ParserState ⊕ ParserState × ℕ :=
  yysetstate { s with yyssp := yystate :: s.yyssp }

/-- The state that the error token leads to. -/
def errorState (yystate : ℕ) : Option ℕ :=
  let yyn := yypact.getD yystate 0
  if yyn = yypactNinf then none
  else (yyentry (yyn + yyTerror) yyTerror).filter (0 < ·)

/-- `yyerrlab1`: states are popped until there is one that takes the error token. -/
def yyerrlab1 (s : ParserState) : List ℕ → List SyntaxNode → ParserState ⊕ ParserState × ℕ
  | [], yyvsp => .inr ({ s with yyssp := [], yyvsp := yyvsp }, 1)
  | yystate :: yyssp, yyvsp =>
    match errorState yystate with
    | some yyn =>
      if yyn = yyFinal then .inr ({ s with yyssp := yystate :: yyssp, yyvsp := yyvsp }, 0)
      else
        yynewstate yyn { s with yyssp := yystate :: yyssp, yyvsp := s.yylval :: yyvsp }
    | none =>
      if yyssp = [] then .inr ({ s with yyssp := [yystate], yyvsp := yyvsp }, 1)
      else yyerrlab1 s yyssp yyvsp.tail

/-- `yyerrlab` -/
def yyerrlab (s : ParserState) : ParserState ⊕ ParserState × ℕ :=
  let s := if s.yyerrstatus = 0 then s.setError .syntaxError else s
  if s.yyerrstatus = 3 then
    match s.yychar with
    | some none => .inr (s, 1)
    | some (some _) => yyerrlab1 { s with yychar := none } s.yyssp s.yyvsp
    | none => yyerrlab1 s s.yyssp s.yyvsp
  else yyerrlab1 { s with yyerrstatus := 3 } s.yyssp s.yyvsp

/-- The action of a rule, for the values of its right side. -/
def yyaction (yyn : ℕ) (yyvs : List SyntaxNode) : SyntaxNode :=
  if yyn < 2 then yyvs.headD .null
  else ((rules[yyn - 2]?).map (fun r => r.value yyvs)).getD (yyvs.headD .null)

/-- `yyreduce`; the action of rule 2 calls `MinisqlParserSetRoot`. -/
def yyreduce (yyn : ℕ) (s : ParserState) : ParserState ⊕ ParserState × ℕ :=
  let yylen := yyr2.getD yyn 0
  let yyval := yyaction yyn (s.yyvsp.take yylen).reverse
  let below := s.yyssp.drop yylen
  yynewstate (yygoto (below.headD 0) (yyr1.getD yyn 0))
    { s with
      yyssp := below
      yyvsp := yyval :: s.yyvsp.drop yylen
      root := if yyn = 2 then yyval else s.root }

/-- What a state does with the token that has been read ahead, if it needs one. -/
def yyact (s : ParserState) : ParserState ⊕ ParserState × ℕ :=
  match yydecision (s.yyssp.headD 0) (nextToken (s.yychar.getD none)) with
  | .shift yyn =>
    yynewstate yyn
      { s with
        yyerrstatus := s.yyerrstatus - 1
        yychar := if s.yychar = some none then s.yychar else none
        yyvsp := s.yylval :: s.yyvsp }
  | .reduce yyn => yyreduce yyn s
  | .accept => .inr (s, 0)
  | .error => yyerrlab s

/-- `yybackup`: a token is read if the state needs one and there is none. -/
def yybackup (s : ParserState) : ParserState ⊕ ParserState × ℕ :=
  yyact
    (if yypact.getD (s.yyssp.headD 0) 0 = yypactNinf ∨ s.yychar.isSome then s
      else s.yylex s.input)

/-- The loop of `yyparse`, for at most the given number of rounds: what it returns, and
the state that it leaves. -/
def yyloop : ℕ → ParserState → Option (ParserState × ℕ)
  | 0, _ => none
  | rounds + 1, s =>
    match yybackup s with
    | .inl s' => yyloop rounds s'
    | .inr result => some result

/-- `MinisqlParserInit`, and what `yyparse` begins with; `yylval` is as it was left. -/
def ParserState.init (yylval : SyntaxNode) (input : List Scanned) : ParserState where
  yyssp := [0]
  yyvsp := []
  yystacksize := yyInitDepth
  yychar := none
  yylval := yylval
  yyerrstatus := 0
  input := input
  root := .null
  error := none

/-- `yyparse` -/
def yyparse (rounds : ℕ) (yylval : SyntaxNode) (input : List Scanned) :
    Option (ParserState × ℕ) :=
  match yysetstate (.init yylval input) with
  | .inl s => yyloop rounds s
  | .inr result => some result

/-! ## Reading ahead -/

/-- The tokens with what `yylval` is at them: a token without a node leaves it as it
was. -/
def yylvals (yylval : SyntaxNode) : List Scanned → List (Token × SyntaxNode)
  | [] => []
  | .token l :: input => (l.token, l.node.getD yylval) :: yylvals (l.node.getD yylval) input
  | .unrecognized _ :: input => yylvals yylval input

namespace ParserState

/-- The tokens that have not been put on the stack, with the one that has been read
ahead. -/
def pending (s : ParserState) : List (Token × SyntaxNode) :=
  match s.yychar with
  | none => yylvals s.yylval s.input
  | some none => []
  | some (some t) => (t, s.yylval) :: yylvals s.yylval s.input

theorem setError_error (s : ParserState) (e : ParserError) : (s.setError e).error ≠ none := by
  unfold setError
  split
  · rename_i h
    exact Option.isSome_iff_ne_none.mp h
  · exact Option.some_ne_none e

theorem setError_fields (s : ParserState) (e : ParserError) :
    (s.setError e).root = s.root ∧ (s.setError e).input = s.input := by
  unfold setError
  split <;> exact ⟨rfl, rfl⟩

/-- What `yylex` leaves alone. -/
structure ReadsOn (s s' : ParserState) : Prop where
  yyssp : s'.yyssp = s.yyssp
  yyvsp : s'.yyvsp = s.yyvsp
  yystacksize : s'.yystacksize = s.yystacksize
  yyerrstatus : s'.yyerrstatus = s.yyerrstatus
  root : s'.root = s.root

/-- **What `yylex` reads**: the next token, behind the characters that it reports. -/
theorem yylex_spec (s : ParserState) (input : List Scanned) :
    ReadsOn s (s.yylex input) ∧ (s.yylex input).pending = yylvals s.yylval input ∧
      (s.yylex input).yychar.isSome ∧
      ((s.yylex input).yychar = some none → (s.yylex input).input = []) ∧
      ∃ scanned, input = scanned ++ (s.yylex input).input ∧
        ((s.yylex input).error = none ↔
          s.error = none ∧ ∀ x ∈ scanned, x.lexeme.isSome) := by
  induction input generalizing s with
  | nil =>
    refine ⟨⟨rfl, rfl, rfl, rfl, rfl⟩, rfl, rfl, fun _ => rfl, [], rfl, ?_⟩
    simp only [yylex, List.not_mem_nil, false_implies, implies_true, and_true]
  | cons x input ih =>
    cases x with
    | token l =>
      refine ⟨⟨rfl, rfl, rfl, rfl, rfl⟩, rfl, rfl, fun h => ?_, [.token l], rfl, ?_⟩
      · cases h
      · simp only [yylex, List.mem_singleton, forall_eq, Scanned.lexeme, Option.isSome_some,
          and_true]
    | unrecognized yytext =>
      obtain ⟨hreads, hpending, hsome, heof, scanned, hinput, herror⟩ :=
        ih (s.setError (.unrecognizedToken yytext))
      have hset : ReadsOn s (s.setError (.unrecognizedToken yytext)) ∧
          (s.setError (.unrecognizedToken yytext)).yylval = s.yylval := by
        unfold setError
        split <;> exact ⟨⟨rfl, rfl, rfl, rfl, rfl⟩, rfl⟩
      rw [yylex]
      refine ⟨⟨hreads.yyssp.trans hset.1.yyssp, hreads.yyvsp.trans hset.1.yyvsp,
        hreads.yystacksize.trans hset.1.yystacksize, hreads.yyerrstatus.trans hset.1.yyerrstatus,
        hreads.root.trans hset.1.root⟩, ?_, hsome, heof, .unrecognized yytext :: scanned, ?_, ?_⟩
      · rw [hpending, hset.2]
        rfl
      · rw [List.cons_append, ← hinput]
      · rw [herror]
        refine ⟨fun h => (setError_error s _ h.1).elim, fun h => ?_⟩
        cases h.2 _ List.mem_cons_self

end ParserState

/-! ## The stacks -/

/-- The places of the stack, above its first state. -/
def places : ℕ := 9998

/-- A state goes on the stack, or there is no place for it. -/
theorem yynewstate_spec (yystate : ℕ) {s : ParserState}
    (hsize : s.yyssp.length < s.yystacksize) (hmax : s.yystacksize ≤ yyMaxDepth) :
    (s.yyssp.length ≤ places →
      ∃ size, yynewstate yystate s =
          .inl { s with yyssp := yystate :: s.yyssp, yystacksize := size } ∧
        s.yyssp.length + 1 < size ∧ size ≤ yyMaxDepth) ∧
    (places < s.yyssp.length →
      ∃ s', yynewstate yystate s = .inr (s', 2) ∧ s'.error ≠ none ∧ s'.root = s.root) := by
  have hdepth : yyMaxDepth = places + 2 := rfl
  unfold yynewstate yysetstate
  simp only [List.length_cons]
  constructor
  · intro hroom
    by_cases hfull : s.yystacksize ≤ s.yyssp.length + 1
    · have hlow : ¬ yyMaxDepth ≤ s.yystacksize := by omega
      have hgrown : ¬ min (2 * s.yystacksize) yyMaxDepth ≤ s.yyssp.length + 1 := by omega
      rw [if_pos hfull, if_neg hlow, if_neg hgrown]
      exact ⟨_, rfl, Nat.lt_of_not_le hgrown, Nat.min_le_right _ _⟩
    · rw [if_neg hfull]
      exact ⟨_, rfl, Nat.lt_of_not_le hfull, hmax⟩
  · intro hroom
    have hfull : s.yystacksize ≤ s.yyssp.length + 1 := by omega
    have hhigh : yyMaxDepth ≤ s.yystacksize := by omega
    rw [if_pos hfull, if_pos hhigh]
    exact ⟨_, rfl, ParserState.setError_error _ _, (ParserState.setError_fields _ _).1⟩

/-! ## Errors -/

/-- No state takes the error token: it is nowhere in the table. -/
theorem errorState_eq_none (yystate : ℕ) : errorState yystate = none := by
  have hcheck : ∀ x ∈ yycheck, x ≠ (yyTerror : ℤ) := by decide
  have hentry (place : ℤ) : yyentry place yyTerror = none := by
    unfold yyentry
    refine if_pos (Or.inr (Or.inr ?_))
    rw [List.getD_eq_getElem?_getD]
    cases h : yycheck[place.toNat]? with
    | none => decide
    | some x => exact hcheck x (List.mem_of_getElem? h)
  unfold errorState
  simp only [hentry, Option.filter_none, ite_self]

theorem yyerrlab1_spec (s : ParserState) (yyssp : List ℕ) (yyvsp : List SyntaxNode) :
    ∃ yyssp' yyvsp', yyerrlab1 s yyssp yyvsp =
      .inr ({ s with yyssp := yyssp', yyvsp := yyvsp' }, 1) := by
  induction yyssp generalizing yyvsp with
  | nil => exact ⟨_, _, rfl⟩
  | cons yystate yyssp ih =>
    unfold yyerrlab1
    simp only [errorState_eq_none]
    split
    · exact ⟨_, _, rfl⟩
    · exact ih _

/-- **A syntax error ends the run**: it is reported, and no rule takes it up. -/
theorem yyerrlab_spec {s : ParserState} (h : s.yyerrstatus = 0) :
    ∃ s', yyerrlab s = .inr (s', 1) ∧ s'.error ≠ none ∧ s'.root = s.root := by
  have hne : ¬ (s.setError .syntaxError).yyerrstatus = 3 := by
    unfold ParserState.setError
    split <;> simp only [h] <;> decide
  unfold yyerrlab
  simp only [h, if_true, hne, if_false]
  obtain ⟨yyssp', yyvsp', heq⟩ := yyerrlab1_spec
    { s.setError .syntaxError with yyerrstatus := 3 } (s.setError .syntaxError).yyssp
    (s.setError .syntaxError).yyvsp
  exact ⟨_, heq, s.setError_error _, (s.setError_fields _).1⟩

/-- The action of a rule is the value that the grammar gives to it. -/
theorem yyaction_eq (r : Fin rules.length) (yyvs : List SyntaxNode) :
    yyaction (r + 2) yyvs = (grammar r).value yyvs := by
  have hlow : ¬ (r : ℕ) + 2 < 2 := by omega
  have hrule : rules[(r : ℕ)]? = some (grammar r) := List.getElem?_eq_getElem r.isLt
  simp only [yyaction, hlow, if_false, Nat.add_sub_cancel, hrule, Option.map_some,
    Option.getD_some]

/-! ## The automaton -/

/-- What an action of the automaton returns where it ends the run. -/
def yyresult : ShiftReduce.Outcome → ℕ
  | .accepted => 0
  | .rejected => 1
  | .exhausted => 2

/-- The state after the whole input has been reduced to the start symbol. -/
def Complete (q : ℕ) : Prop := ∃ after, Item q none 1 after

/-- **`yyparse` and the automaton**: the same stack and the same tokens. The root has
been set if the automaton has reduced to the start symbol. -/
structure Simulates (input : List Scanned) (s : ParserState)
    (c : Config ℕ Token SyntaxNode) : Prop where
  states : s.yyssp = c.stack.map Prod.fst ++ [0]
  values : s.yyvsp = c.stack.map Prod.snd
  tokens : c.input = s.pending
  size : s.yyssp.length < s.yystacksize
  size_le : s.yystacksize ≤ yyMaxDepth
  status : s.yyerrstatus = 0
  spells : ∃ γ w, Spells automaton grammar places Item c.stack γ w
  complete : Complete (automaton.top c.stack) → ∃ q, c.stack = [(q, s.root)]
  incomplete : ¬ Complete (automaton.top c.stack) → s.root = .null
  eof : s.yychar = some none → s.input = []
  read : ∃ scanned, input = scanned ++ s.input ∧
    (s.error = none ↔ ∀ x ∈ scanned, x.lexeme.isSome)

theorem not_complete_start : ¬ Complete 0 := fun ⟨_, h⟩ => backward.fresh h

/-- A complete state does nothing more. -/
theorem action_complete {q : ℕ} (h : Complete q) (next : Option Token) :
    automaton.action q next = .accept ∨ automaton.action q next = .error := by
  obtain ⟨after, hitem⟩ := h
  cases next with
  | none =>
    left
    simp only [automaton, nextToken, Option.map_none, Option.getD_none, (at_end hitem).1,
      Decision.action]
  | some a =>
    right
    simp only [automaton, nextToken, Option.map_some, Option.getD_some,
      (at_end hitem).2 a (Token.mem_all a), Decision.action]

/-- Only the rule of the start symbol leads to a complete state. -/
theorem rule_start : ∀ r : Fin rules.length, (grammar r).lhs = .start ↔ (r : ℕ) = 0 := by
  decide

theorem item_start : ∀ q < items.length, ∀ e ∈ items.getD q [], e.1 = 2 ∧ e.2.1 = 0 → q = 0 := by
  decide +kernel

theorem complete_goto {q : ℕ} {r : Fin rules.length} {after : Option Token}
    (h : Item q (some r) 0 after) :
    Complete (automaton.goto q (grammar r).lhs) ↔ (r : ℕ) = 0 := by
  constructor
  · rintro ⟨after', hitem⟩
    obtain ⟨hsymbol, -⟩ := (backward.goto h).2.2 none 0 after' hitem
    exact (rule_start r).mp (Sum.inr.inj (Option.some.inj hsymbol)).symm
  · intro hr
    obtain ⟨L, hmem, -⟩ := item_iff.mp h
    have hnumber : number (some r) = 2 := by
      simp only [number, hr]
    have hq : q = 0 := item_start q (lt_of_mem_items hmem) _ hmem ⟨hnumber, rfl⟩
    have hrhs : rhs grammar .start none = ([] : List (Token ⊕ Nonterminal)) ++ .inr .start :: [] :=
      rfl
    rw [(rule_start r).mpr hr, hq]
    exact ⟨none, forward.goto (forward.start none) hrhs⟩

namespace Simulates

variable {input : List Scanned} {s : ParserState} {c : Config ℕ Token SyntaxNode}

theorem top_eq (h : Simulates input s c) : s.yyssp.headD 0 = automaton.top c.stack := by
  rw [h.states]
  cases c.stack <;> rfl

theorem length_eq (h : Simulates input s c) : s.yyssp.length = c.stack.length + 1 := by
  rw [h.states, List.length_append, List.length_map]
  rfl

/-- A token that is read ahead changes nothing. -/
theorem yylex (h : Simulates input s c) (hchar : s.yychar = none) :
    Simulates input (s.yylex s.input) c := by
  obtain ⟨hreads, hpending, -, heof, scanned, hinput, herror⟩ := s.yylex_spec s.input
  obtain ⟨scanned', hinput', herror'⟩ := h.read
  refine ⟨hreads.yyssp.trans h.states, hreads.yyvsp.trans h.values, ?_, ?_, ?_,
    hreads.yyerrstatus.trans h.status, h.spells, ?_, ?_, heof, scanned' ++ scanned, ?_, ?_⟩
  · rw [h.tokens, hpending]
    unfold ParserState.pending
    rw [hchar]
  · rw [hreads.yyssp, hreads.yystacksize]
    exact h.size
  · rw [hreads.yystacksize]
    exact h.size_le
  · rw [hreads.root]
    exact h.complete
  · rw [hreads.root]
    exact h.incomplete
  · rw [List.append_assoc, ← hinput, hinput']
  · rw [herror, herror']
    simp only [List.mem_append, or_imp, forall_and]

/-- The state needs no token, or has one. -/
def Ready (s : ParserState) : Prop :=
  s.yychar = none → yypact.getD (s.yyssp.headD 0) 0 = yypactNinf

/-- Before a state acts, it has the token that it needs. -/
theorem ready (h : Simulates input s c) :
    ∃ s', Simulates input s' c ∧ Ready s' ∧ yybackup s = yyact s' := by
  unfold yybackup
  split
  · rename_i hor
    refine ⟨s, h, fun hchar => ?_, rfl⟩
    rcases hor with hpact | hsome
    · exact hpact
    · rw [hchar] at hsome
      cases hsome
  · rename_i hor
    have hchar : s.yychar = none := by
      cases hs : s.yychar with
      | none => rfl
      | some x => exact (hor (.inr (by rw [hs]; rfl))).elim
    refine ⟨_, h.yylex hchar, fun hnone => ?_, rfl⟩
    have hsome := (s.yylex_spec s.input).2.2.1
    rw [hnone] at hsome
    cases hsome

theorem action_eq (h : Simulates input s c) (hready : Ready s) :
    automaton.action (automaton.top c.stack) (lookahead c.input) =
      (yydecision (s.yyssp.headD 0) (nextToken (s.yychar.getD none))).action := by
  rw [← h.top_eq, h.tokens]
  cases hchar : s.yychar with
  | none =>
    have hpact := hready hchar
    simp only [automaton, yydecision_of_pact hpact]
  | some x =>
    cases x with
    | none => simp only [automaton, ParserState.pending, hchar, lookahead_nil, Option.getD_some]
    | some t => simp only [automaton, ParserState.pending, hchar, lookahead_cons, Option.getD_some]

end Simulates

/-- **What a run leaves behind** where the automaton ends. -/
structure Ends (input : List Scanned) (c : Config ℕ Token SyntaxNode) (o : ShiftReduce.Outcome)
    (s : ParserState) : Prop where
  complete : Complete (automaton.top c.stack) → ∃ q, c.stack = [(q, s.root)]
  incomplete : ¬ Complete (automaton.top c.stack) → s.root = .null
  error : s.error = none ↔ o = .accepted ∧ ∀ x ∈ input, x.lexeme.isSome

namespace Simulates

variable {input : List Scanned} {s : ParserState} {c : Config ℕ Token SyntaxNode}

/-- A run that ends with an error leaves the root as it was. -/
theorem ends_error (h : Simulates input s c) {s' : ParserState} {o : ShiftReduce.Outcome}
    (hroot : s'.root = s.root) (herror : s'.error ≠ none) (ho : o ≠ .accepted) :
    Ends input c o s' where
  complete := hroot ▸ h.complete
  incomplete := hroot ▸ h.incomplete
  error := ⟨fun h => (herror h).elim, fun h => (ho h.1).elim⟩

/-- A state goes on both stacks, or there is no place on either of them. -/
theorem push (h : Simulates input s c) {stack : List (ℕ × SyntaxNode)} {q : ℕ} {v : SyntaxNode}
    {p : ParserState} {w : List (Token × SyntaxNode)}
    (hstates : p.yyssp = stack.map Prod.fst ++ [0]) (hvalues : p.yyvsp = (v :: stack.map Prod.snd))
    (hle : stack.length ≤ c.stack.length)
    (hsize : p.yystacksize = s.yystacksize) (htokens : w = p.pending)
    (hstatus : p.yyerrstatus = 0)
    (hspells : stack.length < places →
      ∃ γ w, Spells automaton grammar places Item ((q, v) :: stack) γ w)
    (hcomplete : Complete q → stack = [] ∧ p.root = v) (hincomplete : ¬ Complete q → p.root = .null)
    (heof : p.yychar = some none → p.input = [])
    (hread : ∃ scanned, input = scanned ++ p.input ∧
      (p.error = none ↔ ∀ x ∈ scanned, x.lexeme.isSome)) :
    (∃ s' c', yynewstate q p = .inl s' ∧ Automaton.push places q v stack w = .inl c' ∧
      Simulates input s' c') ∨
    ∃ s', yynewstate q p = .inr (s', 2) ∧ Automaton.push places q v stack w = .inr .exhausted ∧
      s'.error ≠ none ∧ s'.root = p.root := by
  have hlength : p.yyssp.length = stack.length + 1 := by
    rw [hstates, List.length_append, List.length_map]
    rfl
  have hbound : p.yyssp.length < p.yystacksize := by
    have := h.size
    have := h.length_eq
    omega
  have hspec := yynewstate_spec q hbound (hsize ▸ h.size_le)
  by_cases hroom : stack.length < places
  · obtain ⟨size, heq, hsize', hmax⟩ := hspec.1 (by omega)
    refine .inl ⟨_, ⟨(q, v) :: stack, w⟩, heq, if_pos hroom, ?_⟩
    exact
      { states := congrArg (q :: ·) hstates
        values := hvalues
        tokens := htokens
        size := hsize'
        size_le := hmax
        status := hstatus
        spells := hspells hroom
        complete := fun hc => by
          obtain ⟨hnil, hroot⟩ := hcomplete hc
          exact ⟨q, by rw [hnil, hroot]⟩
        incomplete := hincomplete
        eof := heof
        read := hread }
  · obtain ⟨s', heq, herror, hroot⟩ := hspec.2 (by omega)
    exact .inr ⟨s', heq, if_neg hroom, herror, hroot⟩

/-- A shift, by both. -/
theorem shift (h : Simulates input s c) (hready : Ready s) {q : ℕ}
    (hdecision : yydecision (s.yyssp.headD 0) (nextToken (s.yychar.getD none)) = .shift q) :
    (∃ s' c', yyact s = .inl s' ∧ automaton.step grammar places c = .inl c' ∧
      Simulates input s' c') ∨
    ∃ s' o, yyact s = .inr (s', yyresult o) ∧ automaton.step grammar places c = .inr o ∧
      Ends input c o s' := by
  obtain ⟨γ, w, hspells⟩ := h.spells
  obtain ⟨ρ, i, after, hstate⟩ := hspells.exists_item backward
  have haction := h.action_eq hready
  rw [hdecision] at haction
  have hnotnone : lookahead c.input ≠ none := fun hnone => by
    have hprecedes := precedes_of_item hstate none
    rw [hnone] at haction
    unfold precedes at hprecedes
    rw [action_eq_shift haction] at hprecedes
    cases hprecedes
  obtain ⟨t, hchar⟩ : ∃ t, s.yychar = some (some t) := by
    cases hchar : s.yychar with
    | none =>
      rw [yydecision_of_pact (hready hchar), yydefault] at hdecision
      split at hdecision <;> cases hdecision
    | some x =>
      cases x with
      | none =>
        have htokens := h.tokens
        rw [ParserState.pending, hchar] at htokens
        rw [htokens] at hnotnone
        exact (hnotnone rfl).elim
      | some t => exact ⟨t, rfl⟩
  have hinput : c.input = (t, s.yylval) :: yylvals s.yylval s.input := by
    rw [h.tokens, ParserState.pending, hchar]
  have hroot : s.root = .null := h.incomplete (fun hc => by
    rcases action_complete hc (lookahead c.input) with h | h <;>
      (rw [haction] at h; cases h))
  rw [hinput, lookahead_cons] at haction
  have hq : ¬ Complete q := by
    rintro ⟨after', hitem⟩
    cases ((backward.shift hstate haction).2.2 none 0 after' hitem).1
  have hpush := h.push (q := q) (v := s.yylval)
    (p := { s with
      yyerrstatus := s.yyerrstatus - 1
      yychar := if s.yychar = some none then s.yychar else none
      yyvsp := s.yylval :: s.yyvsp })
    h.states (congrArg (s.yylval :: ·) h.values) le_rfl rfl
    (w := yylvals s.yylval s.input) (by simp only [hchar, ParserState.pending]; rfl)
    (by rw [h.status]) (fun hroom => ⟨_, _, hspells.shift haction hroom⟩)
    (fun hc => (hq hc).elim) (fun _ => hroot) (by rw [hchar]; intro hc; cases hc) h.read
  have hyyact : yyact s = yynewstate q
      { s with
        yyerrstatus := s.yyerrstatus - 1
        yychar := if s.yychar = some none then s.yychar else none
        yyvsp := s.yylval :: s.yyvsp } := by
    unfold yyact
    rw [hdecision]
  have hstep : automaton.step grammar places c =
      Automaton.push places q s.yylval c.stack (yylvals s.yylval s.input) := by
    obtain ⟨stack, input'⟩ := c
    cases hinput
    exact Automaton.step_shift haction
  rw [hyyact, hstep]
  rcases hpush with h' | ⟨s', heq, hexhausted, herror, hroot'⟩
  · exact .inl h'
  · exact .inr ⟨s', .exhausted, heq, hexhausted,
      h.ends_error hroot' herror ShiftReduce.Outcome.noConfusion⟩

/-- A reduction, by both. -/
theorem reduce (h : Simulates input s c) (hready : Ready s) {yyn : ℕ}
    (hdecision : yydecision (s.yyssp.headD 0) (nextToken (s.yychar.getD none)) = .reduce yyn) :
    (∃ s' c', yyact s = .inl s' ∧ automaton.step grammar places c = .inl c' ∧
      Simulates input s' c') ∨
    ∃ s' o, yyact s = .inr (s', yyresult o) ∧ automaton.step grammar places c = .inr o ∧
      Ends input c o s' := by
  obtain ⟨γ, w, hspells⟩ := h.spells
  obtain ⟨ρ, i, after, hstate⟩ := hspells.exists_item backward
  obtain ⟨r, rfl⟩ : ∃ r : Fin rules.length, yyn = r + 2 := by
    have hprecedes := precedes_of_item hstate (s.yychar.getD none)
    unfold precedes at hprecedes
    rw [← h.top_eq, hdecision] at hprecedes
    obtain ⟨htwo, hlt, -⟩ := of_decide_eq_true hprecedes
    exact ⟨⟨yyn - 2, hlt⟩, (Nat.sub_add_cancel htwo).symm⟩
  have haction : automaton.action (automaton.top c.stack) (lookahead c.input) = .reduce r := by
    rw [h.action_eq hready, hdecision]
    exact action_reduce r
  obtain ⟨after', hitem⟩ := backward.reduce hstate haction
  obtain ⟨hle, ⟨γ', w', hbelow⟩, after'', hstart⟩ := hspells.pop_rule backward hitem
  have hroot : s.root = .null := h.incomplete (fun hc => by
    rcases action_complete hc (lookahead c.input) with h | h <;>
      (rw [haction] at h; cases h))
  have hstates : s.yyssp.drop (grammar r).rhs.length =
      (c.stack.drop (grammar r).rhs.length).map Prod.fst ++ [0] := by
    rw [h.states, List.drop_append_of_le_length (by rwa [List.length_map]), List.map_drop]
  have htop : (s.yyssp.drop (grammar r).rhs.length).headD 0 =
      automaton.top (c.stack.drop (grammar r).rhs.length) := by
    rw [hstates]
    cases c.stack.drop (grammar r).rhs.length <;> rfl
  have hval : yyaction (r + 2) (s.yyvsp.take (grammar r).rhs.length).reverse =
      (grammar r).value ((c.stack.take (grammar r).rhs.length).map Prod.snd).reverse := by
    rw [yyaction_eq, h.values, List.map_take]
  have hstep : automaton.step grammar places ⟨c.stack, c.input⟩ = _ :=
    Automaton.step_reduce haction
  have hcomplete := complete_goto hstart
  generalize hv : (grammar r).value ((c.stack.take (grammar r).rhs.length).map Prod.snd).reverse =
    v at hstep hval
  generalize hq : automaton.goto (automaton.top (c.stack.drop (grammar r).rhs.length))
    (grammar r).lhs = q at hstep hcomplete
  have hyyact : yyact s = yynewstate q
      { s with
        yyssp := s.yyssp.drop (grammar r).rhs.length
        yyvsp := v :: s.yyvsp.drop (grammar r).rhs.length
        root := if (r : ℕ) + 2 = 2 then v else s.root } := by
    unfold yyact
    rw [hdecision]
    simp only [yyreduce, yyr1_eq, yyr2_eq, hval, htop, ← hq]
    rfl
  have hlength : (c.stack.drop (grammar r).rhs.length).length < places := by
    have hpos : 1 ≤ (grammar r).rhs.length := List.length_pos_iff.mpr (grammar_rhs_ne_nil r)
    have hbound := hspells.length_le
    rw [List.length_drop]
    omega
  have hpushed := hstep.trans (Automaton.push_of_lt (v := v) hlength)
  obtain ⟨γ'', w'', hspells', -⟩ := hspells.step backward hpushed
  have hzero : (r : ℕ) + 2 = 2 ↔ Complete q := by
    rw [hcomplete]
    omega
  have hbottom (hc : Complete q) : c.stack.drop (grammar r).rhs.length = [] := by
    obtain ⟨L, hmem, -⟩ := item_iff.mp hstart
    exact hbelow.eq_nil backward (item_start _ (lt_of_mem_items hmem) _ hmem ⟨hzero.mpr hc, rfl⟩)
  have hpush := h.push (q := q) (v := v)
    (p := { s with
      yyssp := s.yyssp.drop (grammar r).rhs.length
      yyvsp := v :: s.yyvsp.drop (grammar r).rhs.length
      root := if (r : ℕ) + 2 = 2 then v else s.root })
    hstates (by rw [h.values, List.map_drop]) (by rw [List.length_drop]; exact Nat.sub_le _ _) rfl
    h.tokens h.status (fun _ => ⟨γ'', w'', hspells'⟩)
    (fun hc => ⟨hbottom hc, if_pos (hzero.mpr hc)⟩)
    (fun hc => (if_neg (fun h => hc (hzero.mp h))).trans hroot) h.eof h.read
  rw [hyyact, hstep]
  rcases hpush with h' | ⟨s', -, hexhausted, -⟩
  · exact .inl h'
  · rw [Automaton.push_of_lt hlength] at hexhausted
    cases hexhausted

/-- **One round of the loop is one step of the automaton.** -/
theorem step (h : Simulates input s c) :
    (∃ s' c', yybackup s = .inl s' ∧ automaton.step grammar places c = .inl c' ∧
      Simulates input s' c') ∨
    ∃ s' o, yybackup s = .inr (s', yyresult o) ∧ automaton.step grammar places c = .inr o ∧
      Ends input c o s' := by
  obtain ⟨s₁, h₁, hready, heq⟩ := h.ready
  rw [heq]
  have haction := h₁.action_eq hready
  cases hdecision : yydecision (s₁.yyssp.headD 0) (nextToken (s₁.yychar.getD none)) with
  | shift q => exact h₁.shift hready hdecision
  | reduce yyn => exact h₁.reduce hready hdecision
  | accept =>
    rw [hdecision] at haction
    obtain ⟨γ, w, hspells⟩ := h₁.spells
    have hstep : automaton.step grammar places c = .inr .accepted := Automaton.step_accept haction
    have hinput := ((hspells.step_end backward grammar_rhs_ne_nil hstep).1 rfl).1
    have heof : s₁.yychar = some none := by
      have htokens := h₁.tokens
      unfold ParserState.pending at htokens
      cases hchar : s₁.yychar with
      | none =>
        rw [yydecision_of_pact (hready hchar), yydefault] at hdecision
        split at hdecision <;> cases hdecision
      | some x =>
        cases x with
        | none => rfl
        | some t =>
          rw [hchar, hinput] at htokens
          cases htokens
    obtain ⟨scanned, hscanned, herror⟩ := h₁.read
    rw [h₁.eof heof, List.append_nil] at hscanned
    refine .inr ⟨s₁, .accepted, ?_, hstep, h₁.complete, h₁.incomplete, ?_⟩
    · unfold yyact
      rw [hdecision]
      rfl
    · rw [herror, hscanned]
      exact ⟨fun h => ⟨rfl, h⟩, fun h => h.2⟩
  | error =>
    rw [hdecision] at haction
    obtain ⟨s', herr, herror, hroot⟩ := yyerrlab_spec h₁.status
    refine .inr ⟨s', .rejected, ?_, Automaton.step_error haction,
      h₁.ends_error hroot herror ShiftReduce.Outcome.noConfusion⟩
    unfold yyact
    rw [hdecision]
    exact herr

end Simulates

/-! ## Runs -/

/-- What `yyparse` begins with. -/
theorem simulates_init (yylval : SyntaxNode) (input : List Scanned) :
    Simulates input (.init yylval input) ⟨[], yylvals yylval input⟩ where
  states := rfl
  values := rfl
  tokens := rfl
  size := show 1 < yyInitDepth by decide
  size_le := show yyInitDepth ≤ yyMaxDepth by decide
  status := rfl
  spells := ⟨[], [], .nil⟩
  complete hc := (not_complete_start hc).elim
  incomplete _ := rfl
  eof hc := by cases hc
  read := ⟨[], rfl, iff_of_true rfl (by intro x hx; cases hx)⟩

/-- **The loop runs as the automaton does.** -/
theorem Simulates.run {input : List Scanned} {rounds : ℕ} {s : ParserState}
    {c c' : Config ℕ Token SyntaxNode} {o : ShiftReduce.Outcome} (h : Simulates input s c)
    (hrun : automaton.run grammar places rounds c = some (c', o)) :
    ∃ s', yyloop rounds s = some (s', yyresult o) ∧ Ends input c' o s' := by
  induction rounds generalizing s c with
  | zero => cases hrun
  | succ rounds ih =>
    unfold Automaton.run at hrun
    unfold yyloop
    rcases h.step with ⟨s₁, c₁, heq, hstep, h₁⟩ | ⟨s₁, o₁, heq, hstep, hends⟩
    · rw [hstep] at hrun
      rw [heq]
      exact ih h₁ hrun
    · rw [hstep] at hrun
      cases hrun
      rw [heq]
      exact ⟨s₁, rfl, hends⟩

/-- What a symbol weighs: less than what it consists of. -/
def weight : Token ⊕ Nonterminal → ℕ
  | .inl _ => 20
  | .inr .sql => 18
  | .inr .columnDefinitionList => 18
  | .inr .selectColumns => 18
  | .inr .whereConditions => 18
  | .inr .columnValues => 18
  | .inr .updateValues => 18
  | .inr _ => 19

theorem weight_lt (r : Fin rules.length) :
    weight (.inr (grammar r).lhs) < ((grammar r).rhs.map weight).sum := by
  revert r
  decide

/-- The rounds that a text of so many tokens and other characters needs. -/
def enoughRounds (length : ℕ) : ℕ := 21 * length + 1

theorem yylvals_length_le (yylval : SyntaxNode) (input : List Scanned) :
    (yylvals yylval input).length ≤ input.length := by
  induction input generalizing yylval with
  | nil => exact le_rfl
  | cons x input ih =>
    cases x with
    | token l => exact Nat.succ_le_succ (ih _)
    | unrecognized yytext => exact (ih _).trans (Nat.le_succ _)

/-- A loop that has ended has ended with more rounds too. -/
theorem yyloop_mono {rounds rounds' : ℕ} {s : ParserState} {result : ParserState × ℕ}
    (hle : rounds ≤ rounds') (h : yyloop rounds s = some result) :
    yyloop rounds' s = some result := by
  induction rounds generalizing s rounds' with
  | zero => cases h
  | succ rounds ih =>
    cases rounds' with
    | zero => cases hle
    | succ rounds' =>
      unfold yyloop at h ⊢
      cases hstep : yybackup s with
      | inl s' =>
        rw [hstep] at h
        exact ih (Nat.le_of_succ_le_succ hle) h
      | inr result' =>
        rw [hstep] at h
        exact h

/-- **What `yyparse` returns**, on any input, after enough rounds. It is 0 if the whole
input is a statement of the grammar whose parts fit on the stack. The root is the tree
of such a statement that the input begins with, and null if there is none. The stack is
exhausted only by an input of more tokens than it has places, and by every statement
whose parts do not fit. The error is set if anything but 0 is returned, and where there
was a character that begins no token. -/
theorem yyparse_spec (yylval : SyntaxNode) (input : List Scanned) :
    ∃ s yyresult, (∀ rounds, enoughRounds input.length ≤ rounds →
        yyparse rounds yylval input = some (s, yyresult)) ∧
      (yyresult = 0 ↔ ∃ t d, Derives grammar [.inr .start] (yylvals yylval input) [t] d ∧
        d ≤ places) ∧
      (∀ t u rest d, yylvals yylval input = u ++ rest →
        Derives grammar [.inr .start] u [t] d → d ≤ places → s.root = t) ∧
      (s.root = .null ∨ ∃ u rest d, yylvals yylval input = u ++ rest ∧
        Derives grammar [.inr .start] u [s.root] d ∧ d ≤ places) ∧
      (yyresult = 2 → places < (yylvals yylval input).length) ∧
      (∀ t d, Derives grammar [.inr .start] (yylvals yylval input) [t] d → places < d →
        yyresult = 2) ∧ yyresult ≤ 2 ∧
      (s.error = none ↔ yyresult = 0 ∧ ∀ x ∈ input, x.lexeme.isSome) := by
  obtain ⟨c, o, hrun, -, -, haccept, hread, hexhausted, hdeep⟩ :=
    run_spec places forward backward grammar_rhs_ne_nil (fun _ => le_rfl) weight_lt
      (yylvals yylval input)
  have hrounds : (20 + 1) * (yylvals yylval input).length + 1 ≤ enoughRounds input.length := by
    have hle := yylvals_length_le yylval input
    unfold enoughRounds
    omega
  obtain ⟨s, hs, hends⟩ :=
    (simulates_init yylval input).run (Automaton.run_mono hrounds hrun)
  have hroot (t : SyntaxNode) (rest : List (Token × SyntaxNode))
      (h : ∃ u d, yylvals yylval input = u ++ rest ∧ Derives grammar [.inr .start] u [t] d ∧
        d ≤ places) : s.root = t := by
    obtain ⟨q, after, rfl, hitem⟩ := (hread t rest).mpr h
    obtain ⟨q', hq'⟩ := hends.complete ⟨after, hitem⟩
    cases hq'
    rfl
  refine ⟨s, yyresult o, fun rounds h => yyloop_mono h hs, ?_, fun t u rest d hw hu hd =>
    hroot t rest ⟨u, d, hw, hu, hd⟩, ?_, ?_, fun t d hw hd => ?_, ?_, ?_⟩
  · rw [← haccept]
    cases o with
    | accepted => exact iff_of_true rfl rfl
    | rejected => exact iff_of_false Nat.one_ne_zero ShiftReduce.Outcome.noConfusion
    | exhausted => exact iff_of_false (Nat.succ_ne_zero 1) ShiftReduce.Outcome.noConfusion
  · by_cases hc : Complete (automaton.top c.stack)
    · obtain ⟨q, hstack⟩ := hends.complete hc
      obtain ⟨after, hitem⟩ := hc
      rw [hstack] at hitem
      obtain ⟨u, d, hw, hu, hd⟩ := (hread s.root c.input).mp ⟨q, after, by rw [← hstack], hitem⟩
      exact .inr ⟨u, c.input, d, hw, hu, hd⟩
    · exact .inl (hends.incomplete hc)
  · intro h
    cases o with
    | accepted => cases h
    | rejected => cases h
    | exhausted => exact hexhausted rfl
  · rw [hdeep t d hw hd]
    rfl
  · cases o <;> decide
  · rw [hends.error]
    cases o with
    | accepted => exact and_congr_left fun _ => iff_of_true rfl rfl
    | rejected =>
      exact and_congr_left fun _ => iff_of_false ShiftReduce.Outcome.noConfusion Nat.one_ne_zero
    | exhausted =>
      exact and_congr_left fun _ => iff_of_false ShiftReduce.Outcome.noConfusion (Nat.succ_ne_zero 1)

end MiniSql.Parser
