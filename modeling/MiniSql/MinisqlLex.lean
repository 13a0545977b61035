import MiniSql.Yyparse

/-!
# The scanner

`yylex` of `minisql_lex.c`, with the tables that flex has made of `minisql.l`: it goes
through the states of `yy_match`, falls back to the last one that accepted something,
and does what the rule says. The end of the text is two zeros behind it (`yy_scan_bytes`);
where they are read, the text so far is matched once more (`yy_get_previous_state`).

The scanner is asked for one token after the other; here it gives them all (`yyscan`).
Line and column numbers are left out, which only the printed message uses.
-/

namespace MiniSql.Parser

/-! ## The tables -/

/-- `yy_accept`: the rule that a state accepts. -/
def yyAccept : List ℕ :=
  [0, 41, 41, 57, 55, 54, 54, 55, 49, 52, 53, 47, 46, 41, 55, 41, 48, 50, 42, 51, 39, 39, 39, 39,
   39, 39, 39, 39, 39, 39, 39, 39, 39, 39, 39, 39, 39, 39, 39, 0, 1, 0, 0, 41, 40, 44, 43, 45, 39,
   39, 39, 39, 39, 39, 39, 39, 39, 39, 39, 39, 39, 37, 39, 39, 39, 22, 35, 39, 39, 39, 39, 39, 39,
   39, 39, 39, 39, 39, 34, 39, 39, 39, 39, 39, 39, 39, 39, 39, 39, 39, 39, 32, 29, 36, 39, 39, 39,
   39, 39, 26, 39, 39, 39, 39, 14, 39, 39, 39, 39, 31, 39, 39, 39, 39, 3, 39, 39, 23, 39, 39, 25,
   38, 39, 11, 39, 39, 13, 39, 39, 39, 39, 39, 39, 8, 39, 39, 39, 39, 39, 33, 20, 39, 39, 39, 39,
   18, 39, 39, 15, 39, 24, 9, 2, 39, 6, 39, 39, 5, 39, 39, 4, 19, 30, 7, 27, 39, 39, 21, 28, 39,
   16, 12, 10, 17, 0]

/-- `yy_ec`: the class of a character. -/
def yyEc : List ℕ :=
  [0, 1, 1, 1, 1, 1, 1, 1, 1, 2, 3, 2, 2, 1, 1, 1, 1, 1, 1, 1, 1, 1, 1, 1, 1, 1, 1, 1, 1, 1, 1, 1,
   2, 1, 4, 1, 1, 1, 1, 5, 6, 7, 8, 1, 9, 10, 11, 1, 12, 12, 12, 12, 12, 12, 12, 12, 12, 12, 1,
   13, 14, 15, 16, 1, 1, 17, 17, 17, 17, 17, 17, 17, 17, 17, 17, 17, 17, 17, 17, 17, 17, 17, 17,
   17, 17, 17, 17, 17, 17, 17, 17, 1, 18, 1, 1, 17, 1, 19, 20, 21, 22, 23, 24, 25, 26, 27, 17, 28,
   29, 30, 31, 32, 33, 34, 35, 36, 37, 38, 39, 40, 41, 42, 17, 1, 1, 1, 1, 1, 1, 1, 1, 1, 1, 1, 1,
   1, 1, 1, 1, 1, 1, 1, 1, 1, 1, 1, 1, 1, 1, 1, 1, 1, 1, 1, 1, 1, 1, 1, 1, 1, 1, 1, 1, 1, 1, 1, 1,
   1, 1, 1, 1, 1, 1, 1, 1, 1, 1, 1, 1, 1, 1, 1, 1, 1, 1, 1, 1, 1, 1, 1, 1, 1, 1, 1, 1, 1, 1, 1, 1,
   1, 1, 1, 1, 1, 1, 1, 1, 1, 1, 1, 1, 1, 1, 1, 1, 1, 1, 1, 1, 1, 1, 1, 1, 1, 1, 1, 1, 1, 1, 1, 1,
   1, 1, 1, 1, 1, 1, 1, 1, 1, 1, 1, 1, 1, 1, 1, 1, 1, 1, 1, 1, 1, 1, 1, 1, 1]

/-- `yy_meta`: the class of a class, for templates. -/
def yyMeta : List ℕ :=
  [0, 1, 1, 1, 1, 1, 1, 1, 1, 1, 1, 1, 2, 1, 1, 1, 1, 2, 1, 2, 2, 2, 2, 2, 2, 2, 2, 2, 2, 2, 2, 2,
   2, 2, 2, 2, 2, 2, 2, 2, 2, 2, 2]

/-- `yy_base`: where the part of the table for a state begins. -/
def yyBase : List ℕ :=
  [0, 0, 0, 188, 189, 189, 189, 39, 189, 189, 189, 189, 189, 33, 175, 35, 189, 33, 189, 171, 0,
   154, 161, 24, 32, 142, 23, 29, 159, 30, 35, 146, 142, 147, 38, 159, 38, 158, 150, 59, 189, 172,
   162, 42, 161, 189, 189, 189, 0, 150, 146, 151, 139, 145, 130, 137, 133, 141, 131, 130, 50, 0,
   119, 123, 130, 0, 0, 131, 130, 127, 44, 123, 134, 126, 130, 52, 122, 127, 0, 122, 113, 117,
   127, 126, 121, 110, 121, 122, 110, 116, 115, 105, 0, 0, 107, 105, 97, 104, 109, 0, 91, 101, 95,
   109, 0, 96, 88, 90, 93, 0, 96, 85, 101, 83, 0, 95, 81, 0, 76, 81, 0, 0, 96, 0, 94, 92, 0, 89,
   73, 73, 84, 85, 84, 0, 69, 82, 85, 80, 75, 0, 78, 63, 64, 79, 60, 60, 72, 71, 0, 57, 0, 0, 0,
   56, 0, 62, 54, 0, 43, 63, 0, 0, 0, 0, 0, 60, 59, 0, 0, 52, 42, 0, 0, 0, 189, 87, 74]

/-- `yy_def`: the state to turn to where the table says nothing. -/
def yyDef : List ℕ :=
  [0, 174, 1, 174, 174, 174, 174, 175, 174, 174, 174, 174, 174, 174, 174, 174, 174, 174, 174, 174,
   176, 176, 176, 176, 176, 176, 176, 176, 176, 176, 176, 176, 176, 176, 176, 176, 176, 176, 176,
   175, 174, 175, 174, 174, 174, 174, 174, 174, 176, 176, 176, 176, 176, 176, 176, 176, 176, 176,
   176, 176, 176, 176, 176, 176, 176, 176, 176, 176, 176, 176, 176, 176, 176, 176, 176, 176, 176,
   176, 176, 176, 176, 176, 176, 176, 176, 176, 176, 176, 176, 176, 176, 176, 176, 176, 176, 176,
   176, 176, 176, 176, 176, 176, 176, 176, 176, 176, 176, 176, 176, 176, 176, 176, 176, 176, 176,
   176, 176, 176, 176, 176, 176, 176, 176, 176, 176, 176, 176, 176, 176, 176, 176, 176, 176, 176,
   176, 176, 176, 176, 176, 176, 176, 176, 176, 176, 176, 176, 176, 176, 176, 176, 176, 176, 176,
   176, 176, 176, 176, 176, 176, 176, 176, 176, 176, 176, 176, 176, 176, 176, 176, 176, 176, 176,
   176, 176, 0, 174, 174]

/-- `yy_nxt`: the next state. -/
def yyNxt : List ℕ :=
  [0, 4, 5, 6, 7, 8, 9, 10, 11, 12, 13, 14, 15, 16, 17, 18, 19, 20, 4, 21, 22, 23, 24, 25, 26, 20,
   20, 27, 28, 20, 20, 29, 30, 31, 32, 33, 34, 35, 36, 37, 38, 20, 20, 40, 42, 43, 42, 43, 45, 46,
   51, 54, 58, 42, 43, 55, 52, 41, 59, 53, 60, 70, 63, 40, 71, 61, 65, 56, 64, 73, 66, 74, 89, 98,
   75, 104, 48, 41, 173, 105, 172, 99, 171, 170, 169, 168, 90, 91, 39, 39, 167, 166, 165, 164,
   163, 162, 161, 160, 159, 158, 157, 156, 155, 154, 153, 152, 151, 150, 149, 148, 147, 146, 145,
   144, 143, 142, 141, 140, 139, 138, 137, 136, 135, 134, 133, 132, 131, 130, 129, 128, 127, 126,
   125, 124, 123, 122, 121, 120, 119, 118, 117, 116, 115, 114, 113, 112, 111, 110, 109, 108, 107,
   106, 103, 102, 101, 100, 97, 96, 95, 94, 93, 92, 88, 87, 86, 85, 84, 83, 82, 81, 80, 79, 78,
   44, 44, 174, 77, 76, 72, 69, 68, 67, 62, 57, 50, 49, 47, 44, 174, 3, 174, 174, 174, 174, 174,
   174, 174, 174, 174, 174, 174, 174, 174, 174, 174, 174, 174, 174, 174, 174, 174, 174, 174, 174,
   174, 174, 174, 174, 174, 174, 174, 174, 174, 174, 174, 174, 174, 174, 174, 174, 174, 174]

/-- `yy_chk`: the state that an entry is for. -/
def yyChk : List ℕ :=
  [0, 1, 1, 1, 1, 1, 1, 1, 1, 1, 1, 1, 1, 1, 1, 1, 1, 1, 1, 1, 1, 1, 1, 1, 1, 1, 1, 1, 1, 1, 1, 1,
   1, 1, 1, 1, 1, 1, 1, 1, 1, 1, 1, 7, 13, 13, 15, 15, 17, 17, 23, 24, 26, 43, 43, 24, 23, 7, 26,
   23, 27, 34, 29, 39, 34, 27, 30, 24, 29, 36, 30, 36, 60, 70, 36, 75, 176, 39, 170, 75, 169, 70,
   166, 165, 159, 158, 60, 60, 175, 175, 156, 155, 153, 149, 147, 146, 145, 144, 143, 142, 141,
   140, 138, 137, 136, 135, 134, 132, 131, 130, 129, 128, 127, 125, 124, 122, 119, 118, 116, 115,
   113, 112, 111, 110, 108, 107, 106, 105, 103, 102, 101, 100, 98, 97, 96, 95, 94, 91, 90, 89, 88,
   87, 86, 85, 84, 83, 82, 81, 80, 79, 77, 76, 74, 73, 72, 71, 69, 68, 67, 64, 63, 62, 59, 58, 57,
   56, 55, 54, 53, 52, 51, 50, 49, 44, 42, 41, 38, 37, 35, 33, 32, 31, 28, 25, 22, 21, 19, 14, 3,
   174, 174, 174, 174, 174, 174, 174, 174, 174, 174, 174, 174, 174, 174, 174, 174, 174, 174, 174,
   174, 174, 174, 174, 174, 174, 174, 174, 174, 174, 174, 174, 174, 174, 174, 174, 174, 174, 174,
   174, 174, 174, 174, 174]

/-! ## The machine -/

/-- The loop along `yy_def`, and the transition at its end. -/
def yyTransition : ℕ → ℕ → ℕ → Option ℕ
  | 0, _, _ => none
  | rounds + 1, state, c =>
    if yyChk.getD (yyBase.getD state 0 + c) 0 = state then
      some (yyNxt.getD (yyBase.getD state 0 + c) 0)
    else
      let state := yyDef.getD state 0
      yyTransition rounds state (if 175 ≤ state then yyMeta.getD c 0 else c)

/-- The state behind a character. There are 177 states. -/
def yyNext (state : ℕ) (c : UInt8) : Option ℕ := yyTransition 177 state (yyEc.getD c.toNat 0)

/-- The variables of a match, with places counted from `yy_bp` on. -/
structure Match where
  /-- `yy_current_state` -/
  yyCurrentState : ℕ
  /-- `yy_cp` -/
  yyCp : ℕ
  /-- `yy_last_accepting_state` -/
  yyLastAcceptingState : ℕ
  /-- `yy_last_accepting_cpos` -/
  yyLastAcceptingCpos : ℕ

/-- `yy_start`, and nothing has been accepted. -/
def Match.start : Match := ⟨1, 0, 0, 0⟩

/-- The state is remembered if it accepts something. -/
def Match.remember (m : Match) : Match :=
  if yyAccept.getD m.yyCurrentState 0 = 0 then m
  else { m with yyLastAcceptingState := m.yyCurrentState, yyLastAcceptingCpos := m.yyCp }

/-- One more character. -/
def Match.advance (m : Match) (state : ℕ) : Match :=
  { m with yyCurrentState := state, yyCp := m.yyCp + 1 }

/-- `yy_match`, on what is in the buffer: up to a state that goes nowhere. -/
def yyMatch (m : Match) : List UInt8 → Option Match
  | [] => none
  | c :: buffer => do
    let state ← yyNext m.remember.yyCurrentState c
    let m := m.remember.advance state
    if yyBase.getD state 0 = 189 then some m else yyMatch m buffer

/-- `yy_get_previous_state`: the state behind all of the text. -/
def yyGetPreviousState (m : Match) : List UInt8 → Option Match
  | [] => some m
  | c :: text => do
    let state ←
      if c = 0 then yyTransition 177 m.remember.yyCurrentState 1
      else yyNext m.remember.yyCurrentState c
    yyGetPreviousState (m.remember.advance state) text

/-- `yy_find_action`: the number of a rule, and the end of its text. -/
def yyFindAction (m : Match) : ℕ × ℕ :=
  let yyAct := yyAccept.getD m.yyCurrentState 0
  if yyAct = 0 then (yyAccept.getD m.yyLastAcceptingState 0, m.yyLastAcceptingCpos)
  else (yyAct, m.yyCp)

/-- `YY_END_OF_BUFFER` -/
def yyEndOfBuffer : ℕ := 57

/-- What is found at the beginning of a text: a rule and the length of what it matches,
or the end of the file. The text comes from `yy_scan_string`, so that it has no zeros. -/
inductive Found
  | action (yyAct yyleng : ℕ)
  | endOfFile
deriving DecidableEq

/-- One round of the loop of `yylex`, up to the action. -/
def yyFind (text : List UInt8) : Option Found := do
  let m ← yyMatch .start (text ++ [0, 0])
  let (yyAct, yyCp) := yyFindAction m
  if yyAct ≠ yyEndOfBuffer then some (.action yyAct yyCp)
  else if yyCp ≤ text.length then none
  else if yyCp = 1 then some .endOfFile
  else do
    let m ← yyGetPreviousState { m with yyCurrentState := 1, yyCp := 0 } text
    let (yyAct, yyCp) := yyFindAction m
    some (.action yyAct yyCp)

/-! ## The actions -/

/-- What the action of a rule does: it returns a token, does nothing, reports the text, or
copies it to the output. -/
inductive RuleAction
  | token (t : Token)
  | blank
  | unrecognized
  | echo
deriving DecidableEq

/-- The `switch` of `yylex`. -/
def ruleAction : ℕ → Option RuleAction
  | 1 => some (.token .STRING)
  | 2 => some (.token .CREATE)
  | 3 => some (.token .DROP)
  | 4 => some (.token .SELECT)
  | 5 => some (.token .INSERT)
  | 6 => some (.token .DELETE)
  | 7 => some (.token .UPDATE)
  | 8 => some (.token .TRXBEGIN)
  | 9 => some (.token .TRXCOMMIT)
  | 10 => some (.token .TRXROLLBACK)
  | 11 => some (.token .QUIT)
  | 12 => some (.token .EXECFILE)
  | 13 => some (.token .SHOW)
  | 14 => some (.token .USE)
  | 15 => some (.token .USING)
  | 16 => some (.token .DATABASE)
  | 17 => some (.token .DATABASES)
  | 18 => some (.token .TABLE)
  | 19 => some (.token .TABLES)
  | 20 => some (.token .INDEX)
  | 21 => some (.token .INDEXES)
  | 22 => some (.token .ON)
  | 23 => some (.token .FROM)
  | 24 => some (.token .WHERE)
  | 25 => some (.token .INTO)
  | 26 => some (.token .SET)
  | 27 => some (.token .VALUES)
  | 28 => some (.token .PRIMARY)
  | 29 => some (.token .KEY)
  | 30 => some (.token .UNIQUE)
  | 31 => some (.token .CHAR)
  | 32 => some (.token .INT)
  | 33 => some (.token .FLOAT)
  | 34 => some (.token .AND)
  | 35 => some (.token .OR)
  | 36 => some (.token .NOT)
  | 37 => some (.token .IS)
  | 38 => some (.token .FLAGNULL)
  | 39 => some (.token .IDENTIFIER)
  | 40 => some (.token .NUMBER)
  | 41 => some (.token .NUMBER)
  | 42 => some (.token .EQ)
  | 43 => some (.token .NE)
  | 44 => some (.token .LE)
  | 45 => some (.token .GE)
  | 46 => some (.token .comma)
  | 47 => some (.token .asterisk)
  | 48 => some (.token .semicolon)
  | 49 => some (.token .apostrophe)
  | 50 => some (.token .lessThan)
  | 51 => some (.token .greaterThan)
  | 52 => some (.token .leftParenthesis)
  | 53 => some (.token .rightParenthesis)
  | 54 => some .blank
  | 55 => some .unrecognized
  | 56 => some .echo
  | _ => none

/-- What is found in the text by a rule, if anything. -/
def RuleAction.scanned (yytext : StdString) : RuleAction → Option (Option Scanned)
  | token t =>
    if h : ∀ s ∈ t.spelling, yytext = s then some (some (.token ⟨t, yytext, h⟩)) else none
  | blank => some none
  | unrecognized => some (some (.unrecognized yytext))
  | echo => none

theorem RuleAction.scanned_token {t : Token} {yytext : StdString}
    (h : ∀ s ∈ t.spelling, yytext = s) :
    RuleAction.scanned yytext (.token t) = some (some (.token ⟨t, yytext, h⟩)) := dif_pos h

/-- All that `yylex` finds in a text, in so many rounds of its loop at most. -/
def yyscan : ℕ → StdString → Option (List Scanned)
  | 0, _ => none
  | rounds + 1, text => do
    match ← yyFind text with
    | .endOfFile => some []
    | .action yyAct yyleng =>
      let scanned ← (← ruleAction yyAct).scanned (text.take yyleng)
      let more ← yyscan rounds (text.drop yyleng)
      some (scanned.toList ++ more)

end MiniSql.Parser
