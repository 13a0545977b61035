import MiniSql.SyntaxTree

/-!
# The tables of the parser

The tokens and the tables of `minisql_yacc.c`, and the decisions that `yyparse` looks
up in them: what to do in a state with a token, and where to go from a state with a
symbol that has been reduced to. Some states decide without a token
(`yydecision_of_pact`).
-/

namespace MiniSql.Parser

/-- `yytokentype`, and the characters that stand for themselves. -/
inductive Token
  | CREATE | DROP | SELECT | INSERT | DELETE | UPDATE | TRXBEGIN | TRXCOMMIT | TRXROLLBACK
  | QUIT | EXECFILE | SHOW | USE | USING | DATABASE | DATABASES | TABLE | TABLES | INDEX
  | INDEXES | ON | FROM | WHERE | INTO | SET | VALUES | PRIMARY | KEY | UNIQUE | CHAR | INT
  | FLOAT | AND | OR | NOT | IS | FLAGNULL | IDENTIFIER | STRING | NUMBER | EQ | NE | LE | GE
  | semicolon | leftParenthesis | rightParenthesis | comma | asterisk | lessThan | greaterThan
  | apostrophe
deriving DecidableEq

namespace Token

/-- All of them. -/
def all : List Token :=
  [.CREATE, .DROP, .SELECT, .INSERT, .DELETE, .UPDATE, .TRXBEGIN, .TRXCOMMIT, .TRXROLLBACK, .QUIT,
   .EXECFILE, .SHOW, .USE, .USING, .DATABASE, .DATABASES, .TABLE, .TABLES, .INDEX, .INDEXES, .ON,
   .FROM, .WHERE, .INTO, .SET, .VALUES, .PRIMARY, .KEY, .UNIQUE, .CHAR, .INT, .FLOAT, .AND, .OR,
   .NOT, .IS, .FLAGNULL, .IDENTIFIER, .STRING, .NUMBER, .EQ, .NE, .LE, .GE, .semicolon,
   .leftParenthesis, .rightParenthesis, .comma, .asterisk, .lessThan, .greaterThan, .apostrophe]

theorem mem_all (t : Token) : t ∈ all := by cases t <;> decide

/-- The number that `yylex` returns. -/
def code : Token → ℕ
  | CREATE => 258
  | DROP => 259
  | SELECT => 260
  | INSERT => 261
  | DELETE => 262
  | UPDATE => 263
  | TRXBEGIN => 264
  | TRXCOMMIT => 265
  | TRXROLLBACK => 266
  | QUIT => 267
  | EXECFILE => 268
  | SHOW => 269
  | USE => 270
  | USING => 271
  | DATABASE => 272
  | DATABASES => 273
  | TABLE => 274
  | TABLES => 275
  | INDEX => 276
  | INDEXES => 277
  | ON => 278
  | FROM => 279
  | WHERE => 280
  | INTO => 281
  | SET => 282
  | VALUES => 283
  | PRIMARY => 284
  | KEY => 285
  | UNIQUE => 286
  | CHAR => 287
  | INT => 288
  | FLOAT => 289
  | AND => 290
  | OR => 291
  | NOT => 292
  | IS => 293
  | FLAGNULL => 294
  | IDENTIFIER => 295
  | STRING => 296
  | NUMBER => 297
  | EQ => 298
  | NE => 299
  | LE => 300
  | GE => 301
  | semicolon => 59
  | leftParenthesis => 40
  | rightParenthesis => 41
  | comma => 44
  | asterisk => 42
  | lessThan => 60
  | greaterThan => 62
  | apostrophe => 39

end Token

/-- `YYNTOKENS` -/
def yynTokens : ℕ := 54

/-- `YYFINAL` -/
def yyFinal : ℕ := 53

/-- `YYLAST` -/
def yyLast : ℕ := 106

/-- `YYPACT_NINF` -/
def yypactNinf : ℤ := -85

/-- `YYTABLE_NINF` -/
def yytableNinf : ℤ := -1

/-- `YYTERROR` -/
def yyTerror : ℕ := 1

/-- `YYUNDEFTOK` -/
def yyUndefTok : ℕ := 2

/-- `YYMAXUTOK` -/
def yyMaxUTok : ℕ := 301

/-- `yytranslate`: the symbol of a token. -/
def yytranslate : List ℕ :=
  [0, 2, 2, 2, 2, 2, 2, 2, 2, 2, 2, 2, 2, 2, 2, 2, 2, 2, 2, 2, 2, 2, 2, 2, 2, 2, 2, 2, 2, 2, 2, 2,
   2, 2, 2, 2, 2, 2, 2, 2, 48, 49, 51, 2, 50, 2, 2, 2, 2, 2, 2, 2, 2, 2, 2, 2, 2, 2, 2, 47, 52, 2,
   53, 2, 2, 2, 2, 2, 2, 2, 2, 2, 2, 2, 2, 2, 2, 2, 2, 2, 2, 2, 2, 2, 2, 2, 2, 2, 2, 2, 2, 2, 2,
   2, 2, 2, 2, 2, 2, 2, 2, 2, 2, 2, 2, 2, 2, 2, 2, 2, 2, 2, 2, 2, 2, 2, 2, 2, 2, 2, 2, 2, 2, 2, 2,
   2, 2, 2, 2, 2, 2, 2, 2, 2, 2, 2, 2, 2, 2, 2, 2, 2, 2, 2, 2, 2, 2, 2, 2, 2, 2, 2, 2, 2, 2, 2, 2,
   2, 2, 2, 2, 2, 2, 2, 2, 2, 2, 2, 2, 2, 2, 2, 2, 2, 2, 2, 2, 2, 2, 2, 2, 2, 2, 2, 2, 2, 2, 2, 2,
   2, 2, 2, 2, 2, 2, 2, 2, 2, 2, 2, 2, 2, 2, 2, 2, 2, 2, 2, 2, 2, 2, 2, 2, 2, 2, 2, 2, 2, 2, 2, 2,
   2, 2, 2, 2, 2, 2, 2, 2, 2, 2, 2, 2, 2, 2, 2, 2, 2, 2, 2, 2, 2, 2, 2, 2, 2, 2, 2, 2, 2, 2, 2, 2,
   2, 2, 2, 1, 2, 3, 4, 5, 6, 7, 8, 9, 10, 11, 12, 13, 14, 15, 16, 17, 18, 19, 20, 21, 22, 23, 24,
   25, 26, 27, 28, 29, 30, 31, 32, 33, 34, 35, 36, 37, 38, 39, 40, 41, 42, 43, 44, 45, 46]

/-- `yyr1`: the symbol that a rule derives. -/
def yyr1 : List ℕ :=
  [0, 54, 55, 56, 56, 56, 56, 56, 56, 56, 56, 56, 56, 56, 56, 56, 56, 56, 56, 56, 56, 56, 57, 58,
   59, 60, 61, 62, 63, 63, 64, 64, 64, 65, 65, 66, 66, 66, 67, 68, 68, 69, 70, 71, 71, 72, 72, 73,
   73, 74, 74, 75, 76, 76, 76, 77, 77, 77, 77, 77, 77, 77, 77, 78, 79, 79, 80, 80, 81, 81, 82, 82,
   83, 84, 85, 86, 87, 88]

/-- `yyr2`: the number of symbols on the right side of a rule. -/
def yyr2 : List ℕ :=
  [0, 2, 2, 1, 1, 1, 1, 1, 1, 1, 1, 1, 1, 1, 1, 1, 1, 1, 1, 1, 1, 1, 3, 3, 2, 2, 2, 6, 3, 1, 3, 1,
   5, 3, 2, 1, 1, 4, 3, 8, 10, 3, 2, 4, 6, 1, 1, 3, 1, 1, 1, 3, 1, 1, 1, 1, 1, 1, 1, 1, 1, 1, 1,
   7, 3, 1, 3, 5, 4, 6, 3, 1, 3, 1, 1, 1, 1, 2]

/-- `yydefact`: the rule that a state reduces by where the table says nothing. -/
def yydefact : List ℕ :=
  [0, 0, 0, 0, 0, 0, 0, 73, 74, 75, 76, 0, 0, 0, 0, 0, 3, 4, 5, 6, 7, 8, 9, 10, 11, 12, 13, 14,
   15, 16, 17, 18, 19, 20, 21, 0, 0, 0, 0, 0, 0, 29, 45, 46, 0, 0, 0, 0, 77, 24, 26, 42, 25, 1, 2,
   22, 0, 0, 23, 38, 41, 0, 0, 0, 66, 0, 0, 0, 28, 43, 0, 0, 0, 68, 71, 0, 0, 0, 31, 0, 0, 0, 0,
   67, 48, 0, 0, 0, 0, 0, 35, 36, 34, 27, 0, 0, 44, 54, 52, 53, 65, 0, 62, 61, 55, 56, 57, 58, 59,
   60, 0, 49, 50, 0, 72, 69, 70, 0, 0, 33, 30, 0, 0, 63, 51, 47, 0, 0, 39, 64, 32, 37, 0, 40]

/-- `yydefgoto`: where a symbol leads to where the table says nothing. -/
def yydefgoto : List ℤ :=
  [-1, 14, 15, 16, 17, 18, 19, 20, 21, 43, 77, 78, 92, 22, 23, 24, 25, 26, 44, 83, 113, 84, 100,
   110, 27, 101, 28, 29, 73, 74, 30, 31, 32, 33, 34]

/-- `yypact`: where the part of the table for a state begins. -/
def yypact : List ℤ :=
  [32, 2, 3, -36, -19, 8, -7, -85, -85, -85, -85, 10, 7, 12, 53, 11, -85, -85, -85, -85, -85, -85,
   -85, -85, -85, -85, -85, -85, -85, -85, -85, -85, -85, -85, -85, 14, 15, 17, 19, 20, 21, 13,
   -85, -85, 38, 24, 25, 39, -85, -85, -85, -85, -85, -85, -85, -85, 22, 44, -85, -85, -85, 28,
   29, 43, 47, 33, -24, 34, -85, 50, 30, 36, 37, 52, 31, 49, 16, 35, 40, 41, 36, -11, -35, -22,
   -85, -11, 36, 33, 45, 46, -85, -85, 51, -85, -24, 28, -22, -85, -85, -85, 42, 48, -85, -85,
   -85, -85, -85, -85, -85, -85, -11, -85, -85, 36, -85, -22, -85, 28, 54, -85, -85, 55, -11, -85,
   -85, -85, 56, 57, 67, -85, -85, -85, 58, -85]

/-- `yypgoto`: where the part of the table for a symbol begins. -/
def yypgoto : List ℤ :=
  [-85, -85, -85, -85, -85, -85, -85, -85, -85, -61, -9, -85, -85, -85, -85, -85, -85, -85, -85,
   -74, -85, -27, -84, -85, -85, -34, -85, -85, 0, -85, -85, -85, -85, -85, -85]

/-- `yytable` -/
def yytable : List ℕ :=
  [68, 114, 102, 103, 41, 75, 96, 45, 104, 105, 106, 107, 115, 111, 112, 42, 76, 108, 109, 35, 38,
   36, 39, 37, 40, 49, 124, 50, 97, 51, 98, 99, 46, 47, 121, 1, 2, 3, 4, 5, 6, 7, 8, 9, 10, 11,
   12, 13, 89, 90, 91, 48, 52, 53, 55, 56, 126, 57, 54, 58, 59, 60, 62, 61, 63, 64, 65, 67, 41,
   69, 66, 70, 71, 72, 79, 80, 82, 86, 81, 88, 85, 87, 119, 132, 93, 120, 125, 116, 129, 95, 94,
   0, 122, 117, 118, 0, 127, 123, 133, 0, 0, 0, 0, 0, 128, 130, 131]

/-- `yycheck` -/
def yycheck : List ℤ :=
  [61, 85, 37, 38, 40, 29, 80, 26, 43, 44, 45, 46, 86, 35, 36, 51, 40, 52, 53, 17, 17, 19, 19, 21,
   21, 18, 110, 20, 39, 22, 41, 42, 24, 40, 95, 3, 4, 5, 6, 7, 8, 9, 10, 11, 12, 13, 14, 15, 32,
   33, 34, 41, 40, 0, 40, 40, 117, 40, 47, 40, 40, 40, 24, 50, 40, 40, 27, 23, 40, 40, 48, 28, 25,
   40, 40, 25, 40, 25, 48, 30, 43, 50, 31, 16, 49, 94, 113, 87, 122, 48, 50, -1, 50, 48, 48, -1,
   42, 49, 40, -1, -1, -1, -1, -1, 49, 49, 49]

/-- `YYTRANSLATE` -/
def yytoken (code : ℕ) : ℕ :=
  if code ≤ yyMaxUTok then yytranslate.getD code 0 else yyUndefTok

/-- What the tables say. -/
inductive Decision
  | shift (yystate : ℕ)
  | reduce (yyn : ℕ)
  | accept
  | error
deriving DecidableEq

/-- `yydefault` -/
def yydefault (yystate : ℕ) : Decision :=
  let yyn := yydefact.getD yystate 0
  if yyn = 0 then .error else .reduce yyn

/-- The entry of the table for a place in it and what is to be there. -/
def yyentry (place : ℤ) (sought : ℤ) : Option ℕ :=
  if place < 0 ∨ (yyLast : ℤ) < place ∨ yycheck.getD place.toNat 0 ≠ sought then none
  else yytable[place.toNat]?

/-- `yybackup`, with the token at hand; 0 is the end of the input. -/
def yydecision (yystate : ℕ) (yytoken : ℕ) : Decision :=
  let yyn := yypact.getD yystate 0
  if yyn = yypactNinf then yydefault yystate
  else
    match yyentry (yyn + yytoken) yytoken with
    | none => yydefault yystate
    | some yyn =>
      if yyn = 0 ∨ (yyn : ℤ) = yytableNinf then .error
      else if yyn = yyFinal then .accept
      else .shift yyn

/-- The state that a symbol leads to from the one below it. -/
def yygoto (below : ℕ) (symbol : ℕ) : ℕ :=
  match yyentry (yypgoto.getD (symbol - yynTokens) 0 + below) below with
  | some yystate => yystate
  | none => (yydefgoto.getD (symbol - yynTokens) 0).toNat

theorem yydecision_of_pact {yystate : ℕ} (h : yypact.getD yystate 0 = yypactNinf)
    (yytoken : ℕ) : yydecision yystate yytoken = yydefault yystate := by
  unfold yydecision
  exact if_pos h

end MiniSql.Parser
