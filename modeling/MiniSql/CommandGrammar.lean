import MiniSql.Command

/-!
# The commands and the grammar

The grammar derives from each of its symbols exactly the phrases of one type, and so
its statements are exactly the commands (`denotes_start`). With the automaton behind
it, this is what `yyparse` returns, for any text: the tree of the command that the text
begins with (`yyparse_command`).
-/

namespace MiniSql.Parser

open Grammar MiniSql.Parser.SyntaxNode

section Symbols

variable {α : Type} {N : Nonterminal} {p : Phrase α} {β : List (Token ⊕ Nonterminal)}
  {ls : List Lexeme} {vs : List SyntaxNode} {d : ℕ}

/-- A symbol that denotes the values of a type, with other symbols behind it. -/
theorem Denotes.cons_iff (h : Denotes N p) :
    Derives grammar (.inr N :: β) (canon ls) vs d ↔
      ∃ x ls' vs' d', Derives grammar β (canon ls') vs' d' ∧ ls = p.lexemes x ++ ls' ∧
        vs = p.node x :: vs' ∧ d = max (p.places x) (d' + 1) := by
  rw [derives_rule_iff]
  constructor
  · rintro ⟨ls₁, ls₂, t, vs', e, d', ht, h', rfl, rfl, rfl⟩
    obtain ⟨x, rfl, rfl, rfl⟩ := (h _ _ _).mp ht
    exact ⟨x, ls₂, vs', d', h', rfl, rfl, rfl⟩
  · rintro ⟨x, ls', vs', d', h', rfl, rfl, rfl⟩
    exact ⟨_, _, _, _, _, _, (h _ _ _).mpr ⟨x, rfl, rfl, rfl⟩, h', rfl, rfl, rfl⟩

end Symbols

/-- A symbol with one rule. -/
theorem derives_iff_one {N : Nonterminal} {yyn : ℕ} {β : List (Token ⊕ Nonterminal)}
    (hrules : numbersOf N = [yyn]) (hrhs : rhsOf yyn = β) {ls : List Lexeme} {t : SyntaxNode}
    {d : ℕ} : Derives grammar [.inr N] (canon ls) [t] d ↔
      ∃ us, Derives grammar β (canon ls) us d ∧ yyaction yyn us = t := by
  rw [derives_iff, hrules, ← hrhs]
  simp only [List.mem_singleton, exists_eq_left]

/-- A symbol with two rules. -/
theorem derives_iff_two {N : Nonterminal} {yyn yyn' : ℕ} {β β' : List (Token ⊕ Nonterminal)}
    (hrules : numbersOf N = [yyn, yyn']) (hrhs : rhsOf yyn = β) (hrhs' : rhsOf yyn' = β')
    {ls : List Lexeme} {t : SyntaxNode} {d : ℕ} :
    Derives grammar [.inr N] (canon ls) [t] d ↔
      (∃ us, Derives grammar β (canon ls) us d ∧ yyaction yyn us = t) ∨
        ∃ us, Derives grammar β' (canon ls) us d ∧ yyaction yyn' us = t := by
  rw [derives_iff, hrules, ← hrhs, ← hrhs']
  simp only [List.mem_cons, List.not_mem_nil, or_false, exists_eq_or_imp, exists_eq_left]

theorem tree_addChildren (type : SyntaxNodeType) (val : Option StdString)
    (children : List SyntaxNode) (x : SyntaxNode) :
    (tree type val children).addChildren x = tree type val (children ++ [x]) := by
  unfold tree
  rw [addChildren_node, chain_append, chain_singleton]

theorem node_eq_tree (type : SyntaxNodeType) (val : Option StdString) (x : SyntaxNode) :
    .node type val x .null = tree type val [x] := by
  unfold tree
  rw [chain_singleton]

/-- Adding two children, where there are none. -/
theorem addChildren_two (type : SyntaxNodeType) (val : Option StdString) (x y : SyntaxNode) :
    ((tree type val []).addChildren x).addChildren y = tree type val [x, y] := by
  rw [tree_addChildren, tree_addChildren]
  rfl

theorem denotes_columnType : Denotes .columnType TypeClause.phrase := by
  intro ls t d
  have hint : rhsOf 35 = [.inl .INT] := rfl
  have hfloat : rhsOf 36 = [.inl .FLOAT] := rfl
  have hchar : rhsOf 37 = [.inl .CHAR, .inl .leftParenthesis, .inl .NUMBER,
    .inl .rightParenthesis] := rfl
  have hrules : numbersOf .columnType = [35, 36, 37] := rfl
  rw [derives_iff, hrules]
  simp only [List.mem_cons, List.not_mem_nil, or_false, exists_eq_or_imp, exists_eq_left]
  rw [hint, hfloat, hchar]
  simp (disch := decide) only [derives_fixed_iff, derives_number_iff, derives_nil_iff,
    exists_and_left, and_assoc, ↓existsAndEq, true_and]
  constructor
  · rintro (⟨rfl, rfl, rfl⟩ | ⟨rfl, rfl, rfl⟩ | ⟨s, rfl, rfl, rfl⟩)
    · exact ⟨.int, rfl, rfl, rfl⟩
    · exact ⟨.float, rfl, rfl, rfl⟩
    · exact ⟨.char s, rfl, rfl, rfl⟩
  · rintro ⟨x, rfl, rfl, rfl⟩
    cases x with
    | int => exact .inl ⟨rfl, rfl, rfl⟩
    | float => exact .inr (.inl ⟨rfl, rfl, rfl⟩)
    | char s => exact .inr (.inr ⟨s, rfl, rfl, rfl⟩)

theorem denotes_columnDefinition : Denotes .columnDefinition ColumnClause.phrase := by
  intro ls t d
  have hrules : numbersOf .columnDefinition = [33, 34] := rfl
  have hunique : rhsOf 33 = [.inl .IDENTIFIER, .inr .columnType, .inl .UNIQUE] := rfl
  have hplain : rhsOf 34 = [.inl .IDENTIFIER, .inr .columnType] := rfl
  have hunique' (x y z : SyntaxNode) : yyaction 33 [x, y, z] =
      tree .columnDefinition (some (text "unique")) [x, y] := addChildren_two ..
  have hplain' (x y : SyntaxNode) : yyaction 34 [x, y] = tree .columnDefinition none [x, y] :=
    addChildren_two ..
  rw [derives_iff_two hrules hunique hplain]
  simp (disch := decide) only [derives_fixed_iff, derives_identifier_iff,
    denotes_columnType.cons_iff, derives_nil_iff, exists_and_left, and_assoc, ↓existsAndEq,
    true_and, hunique', hplain']
  constructor
  · rintro (⟨s, x, rfl, rfl, rfl⟩ | ⟨s, x, rfl, rfl, rfl⟩)
    · exact ⟨⟨s, x, true⟩, rfl, rfl, rfl⟩
    · exact ⟨⟨s, x, false⟩, rfl, rfl, rfl⟩
  · rintro ⟨⟨s, x, unique⟩, rfl, rfl, rfl⟩
    cases unique with
    | true => exact .inl ⟨s, x, rfl, rfl, rfl⟩
    | false => exact .inr ⟨s, x, rfl, rfl, rfl⟩

/-- **A symbol for a series**: it is one thing, or one thing, a comma and a series. The
induction is on the number of lexemes. -/
theorem denotes_series {α : Type} {N : Nonterminal} {X : Token ⊕ Nonterminal} {p : Phrase α}
    (yyn yyn' : ℕ) (hrules : numbersOf N = [yyn, yyn'])
    (hrhs : rhsOf yyn = [X, .inl .comma, .inr N]) (hrhs' : rhsOf yyn' = [X])
    (haction : ∀ x y z, yyaction yyn [p.node x, y, z] = append (p.node x) z)
    (haction' : ∀ x, yyaction yyn' [x] = x)
    (hX : ∀ {β ls vs d}, Derives grammar (X :: β) (canon ls) vs d ↔
      ∃ x ls' vs' d', Derives grammar β (canon ls') vs' d' ∧ ls = p.lexemes x ++ ls' ∧
        vs = p.node x :: vs' ∧ d = max (p.places x) (d' + 1))
    (hpos : ∀ x, 1 ≤ p.places x) : Denotes N (Series.phrase p) := by
  intro ls t d
  induction hn : ls.length using Nat.strongRecOn generalizing ls t d with
  | ind n ih =>
    have hrest {ls' : List Lexeme} {v : SyntaxNode} {d' : ℕ} (hlt : ls'.length < n) :=
      ih _ hlt ls' v d' rfl
    rw [derives_iff_two hrules hrhs hrhs']
    simp (disch := decide) only [hX, derives_fixed_iff, derives_nil_iff, exists_and_left,
      and_assoc, ↓existsAndEq, true_and]
    constructor
    · rintro (⟨x, ls', vs, d', h, rfl, rfl, rfl⟩ | ⟨x, rfl, rfl, rfl⟩)
      · obtain ⟨v, rfl⟩ := List.length_eq_one_iff.mp h.length_values
        have hlt : ls'.length < n := by
          rw [← hn, List.length_append, List.length_cons]
          omega
        obtain ⟨xs, rfl, rfl, rfl⟩ := (hrest hlt).mp h
        exact ⟨.more x xs, rfl, rfl, (haction _ _ _).symm⟩
      · refine ⟨.one x, List.append_nil _, Nat.max_eq_left (hpos x), ?_⟩
        rw [haction']
        exact chain_singleton _
    · rintro ⟨xs, rfl, rfl, rfl⟩
      cases xs with
      | one x =>
        refine .inr ⟨x, (List.append_nil _).symm, (Nat.max_eq_left (hpos x)).symm, ?_⟩
        rw [haction']
        exact (chain_singleton _).symm
      | more x xs =>
        have hlt : ((Series.phrase p).lexemes xs).length < n := by
          rw [← hn]
          simp only [Series.phrase, Series.lexemes, List.length_append, List.length_cons]
          omega
        exact .inl ⟨x, _, _, _, (hrest hlt).mpr ⟨xs, rfl, rfl, rfl⟩, rfl, rfl, haction _ _ _⟩

theorem derives_name_iff {β : List (Token ⊕ Nonterminal)} {ls : List Lexeme}
    {vs : List SyntaxNode} {d : ℕ} :
    Derives grammar (.inl .IDENTIFIER :: β) (canon ls) vs d ↔
      ∃ s ls' vs' d', Derives grammar β (canon ls') vs' d' ∧ ls = .identifier s :: ls' ∧
        vs = name s :: vs' ∧ d = d' + 1 :=
  derives_identifier_iff

/-- An identifier, with other symbols behind it. -/
theorem name_cons_iff {β : List (Token ⊕ Nonterminal)} {ls : List Lexeme}
    {vs : List SyntaxNode} {d : ℕ} :
    Derives grammar (.inl .IDENTIFIER :: β) (canon ls) vs d ↔
      ∃ x ls' vs' d', Derives grammar β (canon ls') vs' d' ∧
        ls = namePhrase.lexemes x ++ ls' ∧ vs = namePhrase.node x :: vs' ∧
        d = max (namePhrase.places x) (d' + 1) := by
  have hmax (d' : ℕ) : max 1 (d' + 1) = d' + 1 := Nat.max_eq_right (Nat.le_add_left 1 d')
  simp only [derives_identifier_iff, namePhrase, hmax, List.singleton_append, name]

theorem denotes_columnList : Denotes .columnList (Series.phrase namePhrase) :=
  denotes_series 28 29 rfl rfl rfl
    (fun _ _ _ => addSibling_node ..) (fun _ => rfl) name_cons_iff (fun _ => le_rfl)

theorem denotes_columnValue : Denotes .columnValue ValueClause.phrase := by
  intro ls t d
  have hrules : numbersOf .columnValue = [52, 53, 54] := rfl
  have hstring : rhsOf 52 = [.inl .STRING] := rfl
  have hnumber : rhsOf 53 = [.inl .NUMBER] := rfl
  have hnull : rhsOf 54 = [.inl .FLAGNULL] := rfl
  rw [derives_iff, hrules]
  simp only [List.mem_cons, List.not_mem_nil, or_false, exists_eq_or_imp, exists_eq_left]
  rw [hstring, hnumber, hnull]
  simp (disch := decide) only [derives_fixed_iff, derives_number_iff, derives_string_iff,
    derives_nil_iff, exists_and_left, and_assoc, ↓existsAndEq, true_and]
  constructor
  · rintro (⟨s, rfl, rfl, rfl⟩ | ⟨s, rfl, rfl, rfl⟩ | ⟨rfl, rfl, rfl⟩)
    · exact ⟨.string s, rfl, rfl, rfl⟩
    · exact ⟨.number s, rfl, rfl, rfl⟩
    · exact ⟨.null, rfl, rfl, rfl⟩
  · rintro ⟨x, rfl, rfl, rfl⟩
    cases x with
    | string s => exact .inl ⟨s, rfl, rfl, rfl⟩
    | number s => exact .inr (.inl ⟨s, rfl, rfl, rfl⟩)
    | null => exact .inr (.inr ⟨rfl, rfl, rfl⟩)

theorem denotes_columnValues : Denotes .columnValues (Series.phrase ValueClause.phrase) := by
  refine denotes_series 64 65 rfl rfl rfl ?_ (fun _ => rfl)
    denotes_columnValue.cons_iff (fun _ => le_rfl)
  intro x y z
  cases x with
  | string s => exact addSibling_node ..
  | number s => exact addSibling_node ..
  | null => exact addSibling_node ..

theorem denotes_updateValue : Denotes .updateValue SetClause.phrase := by
  intro ls t d
  have hrules : numbersOf .updateValue = [72] := rfl
  have hrhs : rhsOf 72 = [.inl .IDENTIFIER, .inl .EQ, .inr .columnValue] := rfl
  have haction (x y z : SyntaxNode) : yyaction 72 [x, y, z] = tree .updateValue none [x, z] :=
    addChildren_two ..
  rw [derives_iff_one hrules hrhs]
  simp (disch := decide) only [derives_fixed_iff, derives_identifier_iff,
    denotes_columnValue.cons_iff, derives_nil_iff, exists_and_left, and_assoc, ↓existsAndEq,
    true_and, haction, List.append_nil]
  constructor
  · rintro ⟨s, x, rfl, rfl, rfl⟩
    exact ⟨⟨s, x⟩, rfl, rfl, rfl⟩
  · rintro ⟨⟨s, x⟩, rfl, rfl, rfl⟩
    exact ⟨s, x, rfl, rfl, rfl⟩

theorem denotes_updateValues : Denotes .updateValues (Series.phrase SetClause.phrase) :=
  denotes_series 70 71 rfl rfl rfl
    (fun _ _ _ => addSibling_node ..) (fun _ => rfl) denotes_updateValue.cons_iff
    (fun _ => Nat.le_add_left 1 2)

theorem denotes_operator : Denotes .operator ComparisonOperator.phrase := by
  intro ls t d
  have hrules : numbersOf .operator = [55, 56, 57, 58, 59, 60, 61, 62] := rfl
  have hrhs (o : ComparisonOperator) : rhsOf (55 + o.ctorIdx) = [.inl o.token] := by
    cases o <;> rfl
  have haction (o : ComparisonOperator) (x : SyntaxNode) :
      yyaction (55 + o.ctorIdx) [x] = ComparisonOperator.phrase.node o := by
    cases o <;> rfl
  have hspelling (o : ComparisonOperator) : o.token.spelling.isSome := by
    cases o <;> rfl
  have hmem (yyn : ℕ) : yyn ∈ numbersOf .operator ↔
      ∃ o : ComparisonOperator, yyn = 55 + o.ctorIdx := by
    rw [hrules]
    constructor
    · simp only [List.mem_cons, List.not_mem_nil, or_false]
      rintro (rfl | rfl | rfl | rfl | rfl | rfl | rfl | rfl)
      · exact ⟨.equal, rfl⟩
      · exact ⟨.notEqual, rfl⟩
      · exact ⟨.lessEqual, rfl⟩
      · exact ⟨.greaterEqual, rfl⟩
      · exact ⟨.less, rfl⟩
      · exact ⟨.greater, rfl⟩
      · exact ⟨.is, rfl⟩
      · exact ⟨.not, rfl⟩
    · rintro ⟨o, rfl⟩
      cases o <;> decide
  rw [derives_iff]
  constructor
  · rintro ⟨yyn, hyyn, us, h, rfl⟩
    obtain ⟨o, rfl⟩ := (hmem yyn).mp hyyn
    rw [hrhs, derives_fixed_iff (hspelling o)] at h
    obtain ⟨ls', vs, d', h, rfl, rfl, rfl⟩ := h
    obtain ⟨rfl, rfl, rfl⟩ := derives_nil_iff.mp h
    exact ⟨o, rfl, rfl, (haction o _).symm⟩
  · rintro ⟨o, rfl, rfl, rfl⟩
    refine ⟨55 + o.ctorIdx, (hmem _).mpr ⟨o, rfl⟩, [.null], ?_, haction o _⟩
    rw [hrhs]
    exact (derives_fixed_iff (hspelling o)).mpr
      ⟨[], [], 0, derives_nil_iff.mpr ⟨rfl, rfl, rfl⟩, rfl, rfl, rfl⟩

theorem denotes_connector : Denotes .connector ConnectorWord.phrase := by
  intro ls t d
  have hrules : numbersOf .connector = [49, 50] := rfl
  have hand : rhsOf 49 = [.inl .AND] := rfl
  have hor : rhsOf 50 = [.inl .OR] := rfl
  rw [derives_iff_two hrules hand hor]
  simp (disch := decide) only [derives_fixed_iff, derives_nil_iff, exists_and_left, and_assoc,
    ↓existsAndEq, true_and]
  constructor
  · rintro (⟨rfl, rfl, rfl⟩ | ⟨rfl, rfl, rfl⟩)
    · exact ⟨.and, rfl, rfl, rfl⟩
    · exact ⟨.or, rfl, rfl, rfl⟩
  · rintro ⟨x, rfl, rfl, rfl⟩
    cases x with
    | and => exact .inl ⟨rfl, rfl, rfl⟩
    | or => exact .inr ⟨rfl, rfl, rfl⟩

theorem denotes_whereCondition : Denotes .whereCondition Comparison.phrase := by
  intro ls t d
  have hrules : numbersOf .whereCondition = [51] := rfl
  have hrhs : rhsOf 51 = [.inl .IDENTIFIER, .inr .operator, .inr .columnValue] := rfl
  have haction (x z : SyntaxNode) (o : ComparisonOperator) :
      yyaction 51 [x, ComparisonOperator.phrase.node o, z] =
        tree .compareOperator o.token.spelling [x, z] := addChildren_two ..
  have hplaces (o : ComparisonOperator) (x : ValueClause) :
      max (ComparisonOperator.phrase.places o) (max (ValueClause.phrase.places x) (0 + 1) + 1) +
        1 = 3 := rfl
  rw [derives_iff_one hrules hrhs]
  simp (disch := decide) only [derives_identifier_iff, denotes_operator.cons_iff,
    denotes_columnValue.cons_iff, derives_nil_iff, exists_and_left, and_assoc, ↓existsAndEq,
    true_and, haction, hplaces, List.append_nil]
  constructor
  · rintro ⟨s, o, x, rfl, rfl, rfl⟩
    exact ⟨⟨s, o, x⟩, rfl, rfl, rfl⟩
  · rintro ⟨⟨s, o, x⟩, rfl, rfl, rfl⟩
    exact ⟨s, o, x, rfl, rfl, rfl⟩

/-- The conditions are read from the left; the induction is on the number of lexemes. -/
theorem denotes_whereConditions : Denotes .whereConditions Conditions.phrase := by
  intro ls t d
  have hrules : numbersOf .whereConditions = [47, 48] := rfl
  have hmore : rhsOf 47 = [.inr .whereConditions, .inr .connector, .inr .whereCondition] := rfl
  have hone : rhsOf 48 = [.inr .whereCondition] := rfl
  have hmore' (x z : SyntaxNode) (k : ConnectorWord) :
      yyaction 47 [x, ConnectorWord.phrase.node k, z] =
        tree .connector k.token.spelling [x, z] := addChildren_two ..
  have hone' (x : SyntaxNode) : yyaction 48 [x] = x := rfl
  have hplaces (c : Comparison) : max (Comparison.phrase.places c) (0 + 1) = 3 := rfl
  have hplaces' (cs : Conditions) (k : ConnectorWord) :
      max cs.places (max (ConnectorWord.phrase.places k) (3 + 1) + 1) = 5 := by
    cases cs <;> rfl
  induction hn : ls.length using Nat.strongRecOn generalizing ls t d with
  | ind n ih =>
    have hrest {ls' : List Lexeme} {v : SyntaxNode} {d' : ℕ} (hlt : ls'.length < n) :=
      ih _ hlt ls' v d' rfl
    rw [derives_iff_two hrules hmore hone]
    constructor
    · rintro (⟨us, h, rfl⟩ | ⟨us, h, rfl⟩)
      · obtain ⟨ls₁, ls₂, v, vs, e, d', h₁, h₂, rfl, rfl, rfl⟩ := derives_rule_iff.mp h
        simp only [denotes_connector.cons_iff, denotes_whereCondition.cons_iff, derives_nil_iff,
          exists_and_left, and_assoc, ↓existsAndEq, true_and, List.append_nil, hplaces] at h₂
        obtain ⟨k, c, rfl, rfl, rfl⟩ := h₂
        have hlt : ls₁.length < n := by
          rw [← hn, List.length_append]
          exact Nat.lt_add_of_pos_right (Nat.succ_pos _)
        obtain ⟨cs, rfl, rfl, rfl⟩ := (hrest hlt).mp h₁
        exact ⟨.more cs k c, rfl, hplaces' cs k, (hmore' _ _ k).symm⟩
      · simp only [denotes_whereCondition.cons_iff, derives_nil_iff, exists_and_left, and_assoc,
          ↓existsAndEq, true_and, List.append_nil, hplaces] at h
        obtain ⟨c, rfl, rfl, rfl⟩ := h
        exact ⟨.one c, rfl, rfl, rfl⟩
    · rintro ⟨cs, rfl, rfl, rfl⟩
      cases cs with
      | one c =>
        refine .inr ⟨_, denotes_whereCondition.cons_iff.mpr
          ⟨c, [], [], 0, .nil, (List.append_nil _).symm, rfl, rfl⟩, rfl⟩
      | more cs k c =>
        have hlt : (Conditions.phrase.lexemes cs).length < n := by
          rw [← hn]
          simp only [Conditions.phrase, Conditions.lexemes, List.length_append]
          exact Nat.lt_add_of_pos_right (Nat.succ_pos _)
        have hc := denotes_whereCondition.cons_iff.mpr
          ⟨c, [], [], 0, .nil, (List.append_nil _).symm, rfl, rfl⟩
        have hk := denotes_connector.cons_iff.mpr ⟨k, _, _, _, hc, rfl, rfl, rfl⟩
        exact .inl ⟨_, derives_rule_iff.mpr ⟨_, _, _, _, _, _, (hrest hlt).mpr ⟨cs, rfl, rfl, rfl⟩,
          hk, rfl, rfl, (hplaces' cs k).symm⟩, hmore' _ _ k⟩

/-- The definitions are read to the last one; the induction is on the number of
lexemes. -/
theorem denotes_columnDefinitionList : Denotes .columnDefinitionList DefinitionList.phrase := by
  intro ls t d
  have hrules : numbersOf .columnDefinitionList = [30, 31, 32] := rfl
  have hmore : rhsOf 30 = [.inr .columnDefinition, .inl .comma, .inr .columnDefinitionList] := rfl
  have hlast : rhsOf 31 = [.inr .columnDefinition] := rfl
  have hkey : rhsOf 32 = [.inl .PRIMARY, .inl .KEY, .inl .leftParenthesis, .inr .columnList,
    .inl .rightParenthesis] := rfl
  have hmore' (c : ColumnClause) (y z : SyntaxNode) :
      yyaction 30 [ColumnClause.phrase.node c, y, z] = append (ColumnClause.phrase.node c) z :=
    addSibling_node ..
  have hlast' (x : SyntaxNode) : yyaction 31 [x] = x := rfl
  have hkey' (x y z u v : SyntaxNode) : yyaction 32 [x, y, z, u, v] =
      .node .columnList (some (text "primary keys")) u .null := rfl
  have hplaces (c : ColumnClause) :
      max (ColumnClause.phrase.places c) (0 + 1) = ColumnClause.phrase.places c :=
    Nat.max_eq_left (Nat.le_add_left 1 _)
  induction hn : ls.length using Nat.strongRecOn generalizing ls t d with
  | ind n ih =>
    have hrest {ls' : List Lexeme} {v : SyntaxNode} {d' : ℕ} (hlt : ls'.length < n) :=
      ih _ hlt ls' v d' rfl
    rw [derives_iff, hrules]
    simp only [List.mem_cons, List.not_mem_nil, or_false, exists_eq_or_imp, exists_eq_left]
    rw [hmore, hlast, hkey]
    simp (disch := decide) only [denotes_columnDefinition.cons_iff, denotes_columnList.cons_iff,
      derives_fixed_iff, derives_nil_iff, exists_and_left, and_assoc, ↓existsAndEq, true_and,
      hplaces, hlast', hkey', List.append_nil]
    constructor
    · rintro (⟨c, ls', vs, d', h, rfl, rfl, rfl⟩ | ⟨c, rfl, rfl, rfl⟩ | ⟨ks, rfl, rfl, rfl⟩)
      · obtain ⟨v, rfl⟩ := List.length_eq_one_iff.mp h.length_values
        have hlt : ls'.length < n := by
          rw [← hn, List.length_append, List.length_cons]
          omega
        obtain ⟨cs, rfl, rfl, rfl⟩ := (hrest hlt).mp h
        exact ⟨.more c cs, rfl, rfl, (hmore' _ _ _).symm⟩
      · exact ⟨.last c, rfl, rfl, chain_singleton _⟩
      · exact ⟨.primaryKey ks, rfl, rfl, chain_singleton _⟩
    · rintro ⟨cs, rfl, rfl, rfl⟩
      cases cs with
      | more c cs =>
        have hlt : cs.lexemes.length < n := by
          rw [← hn]
          simp only [DefinitionList.phrase, DefinitionList.lexemes, List.length_append,
            List.length_cons]
          omega
        exact .inl ⟨c, _, _, _, (hrest hlt).mpr ⟨cs, rfl, rfl, rfl⟩, rfl, rfl, hmore' _ _ _⟩
      | last c => exact .inr (.inl ⟨c, rfl, rfl, (chain_singleton _).symm⟩)
      | primaryKey ks => exact .inr (.inr ⟨ks, rfl, rfl, (chain_singleton _).symm⟩)

theorem Series.one_le_places {α : Type} {f : α → ℕ} (h : ∀ x, 1 ≤ f x) (xs : Series α) :
    1 ≤ xs.places f := by
  cases xs with
  | one x => exact h x
  | more x xs => exact (h x).trans (Nat.le_max_left _ _)

theorem denotes_selectColumns : Denotes .selectColumns columnsPhrase := by
  intro ls t d
  have hrules : numbersOf .selectColumns = [45, 46] := rfl
  have hall : rhsOf 45 = [.inl .asterisk] := rfl
  have hsome : rhsOf 46 = [.inr .columnList] := rfl
  have hall' (x : SyntaxNode) : yyaction 45 [x] = tree .allColumns none [] := rfl
  have hsome' (x : SyntaxNode) : yyaction 46 [x] =
      .node .columnList (some (text "select columns")) x .null := rfl
  have hplaces (cs : Series StdString) : max ((Series.phrase namePhrase).places cs) (0 + 1) =
      (Series.phrase namePhrase).places cs :=
    Nat.max_eq_left (Series.one_le_places (fun _ => le_rfl) cs)
  rw [derives_iff_two hrules hall hsome]
  simp (disch := decide) only [derives_fixed_iff, denotes_columnList.cons_iff, derives_nil_iff,
    exists_and_left, and_assoc, ↓existsAndEq, true_and, hall', hsome', hplaces, List.append_nil]
  constructor
  · rintro (⟨rfl, rfl, rfl⟩ | ⟨cs, rfl, rfl, rfl⟩)
    · exact ⟨none, rfl, rfl, rfl⟩
    · exact ⟨some cs, rfl, rfl, rfl⟩
  · rintro ⟨cs, rfl, rfl, rfl⟩
    cases cs with
    | none => exact .inl ⟨rfl, rfl, rfl⟩
    | some cs => exact .inr ⟨cs, rfl, rfl, rfl⟩

/-! ### The statements -/

open Command

/-- A symbol for a sequence of tokens that have one text only. -/
theorem derives_front_iff {front : List Token} {β : List (Token ⊕ Nonterminal)}
    (hfront : ∀ a ∈ front, a.spelling.isSome) {ls : List Lexeme} {vs : List SyntaxNode} {d : ℕ} :
    Derives grammar (front.map .inl ++ β) (canon ls) vs d ↔
      ∃ ls' vs' d', Derives grammar β (canon ls') vs' d' ∧ ls = front.map .fixed ++ ls' ∧
        vs = List.replicate front.length .null ++ vs' ∧ d = d' + front.length := by
  induction front generalizing ls vs d with
  | nil => simp only [List.map_nil, List.nil_append, List.length_nil, List.replicate_zero,
      Nat.add_zero, ↓existsAndEq, and_true]
  | cons a front ih =>
    have ha := hfront a List.mem_cons_self
    have hrest := fun b hb => hfront b (List.mem_cons_of_mem a hb)
    simp only [List.map_cons, List.cons_append, derives_fixed_iff ha, ih hrest, and_assoc,
      ↓existsAndEq, List.length_cons, List.replicate_succ, true_and, Nat.add_assoc]

/-- A statement that is some tokens only. -/
theorem denotes_constant {N : Nonterminal} {c : Command} (yyn : ℕ) (front : List Token)
    (hrules : numbersOf N = [yyn]) (hrhs : rhsOf yyn = front.map .inl ++ [])
    (hfront : ∀ a ∈ front, a.spelling.isSome)
    (hbody : c.body = front.map .fixed ++ []) (hplaces : c.bodyPlaces = 0 + front.length)
    (haction : yyaction yyn (List.replicate front.length .null ++ []) = c.node) :
    Denotes N (bodyPhrase.comap (fun _ : Unit => c)) := by
  intro ls t d
  rw [derives_iff_one hrules hrhs]
  simp only [derives_front_iff hfront, derives_nil_iff, exists_and_left, and_assoc, ↓existsAndEq,
    true_and, haction, ← hbody, ← hplaces]
  constructor
  · rintro ⟨rfl, rfl, rfl⟩
    exact ⟨(), rfl, rfl, rfl⟩
  · rintro ⟨-, rfl, rfl, rfl⟩
    exact ⟨rfl, rfl, rfl⟩

/-- A statement that is some tokens and a name. -/
theorem denotes_named {N : Nonterminal} {make : StdString → Command} (yyn : ℕ)
    (front : List Token) (hrules : numbersOf N = [yyn])
    (hrhs : rhsOf yyn = front.map .inl ++ [.inl .IDENTIFIER])
    (hfront : ∀ a ∈ front, a.spelling.isSome)
    (hbody : ∀ s, (make s).body = front.map .fixed ++ [.identifier s])
    (hplaces : ∀ s, (make s).bodyPlaces = 0 + 1 + front.length)
    (haction : ∀ s, yyaction yyn (List.replicate front.length .null ++ [name s]) =
      (make s).node) :
    Denotes N (bodyPhrase.comap make) := by
  intro ls t d
  rw [derives_iff_one hrules hrhs]
  simp only [derives_front_iff hfront, derives_identifier_iff, derives_nil_iff, exists_and_left,
    and_assoc, ↓existsAndEq, true_and]
  constructor
  · rintro ⟨s, rfl, rfl, rfl⟩
    exact ⟨s, (hbody s).symm, (hplaces s).symm, (haction s).symm⟩
  · rintro ⟨s, rfl, rfl, rfl⟩
    exact ⟨s, hbody s, hplaces s, haction s⟩

theorem denotes_sqlCreateDatabase :
    Denotes .sqlCreateDatabase (bodyPhrase.comap createDatabase) :=
  denotes_named 22 [.CREATE, .DATABASE] rfl rfl (by decide) (fun _ => rfl)
    (fun _ => rfl) (fun _ => rfl)

theorem denotes_sqlDropDatabase : Denotes .sqlDropDatabase (bodyPhrase.comap dropDatabase) :=
  denotes_named 23 [.DROP, .DATABASE] rfl rfl (by decide) (fun _ => rfl)
    (fun _ => rfl) (fun _ => rfl)

theorem denotes_sqlShowDatabases :
    Denotes .sqlShowDatabases (bodyPhrase.comap (fun _ : Unit => showDatabases)) :=
  denotes_constant 24 [.SHOW, .DATABASES] rfl rfl (by decide) rfl rfl rfl

theorem denotes_sqlUseDatabase : Denotes .sqlUseDatabase (bodyPhrase.comap useDatabase) :=
  denotes_named 25 [.USE] rfl rfl (by decide) (fun _ => rfl) (fun _ => rfl)
    (fun _ => rfl)

theorem denotes_sqlShowTables :
    Denotes .sqlShowTables (bodyPhrase.comap (fun _ : Unit => showTables)) :=
  denotes_constant 26 [.SHOW, .TABLES] rfl rfl (by decide) rfl rfl rfl

theorem denotes_sqlDropTable : Denotes .sqlDropTable (bodyPhrase.comap dropTable) :=
  denotes_named 38 [.DROP, .TABLE] rfl rfl (by decide) (fun _ => rfl)
    (fun _ => rfl) (fun _ => rfl)

theorem denotes_sqlDropIndex : Denotes .sqlDropIndex (bodyPhrase.comap dropIndex) :=
  denotes_named 41 [.DROP, .INDEX] rfl rfl (by decide) (fun _ => rfl)
    (fun _ => rfl) (fun _ => rfl)

theorem denotes_sqlShowIndexes :
    Denotes .sqlShowIndexes (bodyPhrase.comap (fun _ : Unit => showIndexes)) :=
  denotes_constant 42 [.SHOW, .INDEXES] rfl rfl (by decide) rfl rfl rfl

theorem denotes_sqlTrxBegin :
    Denotes .sqlTrxBegin (bodyPhrase.comap (fun _ : Unit => trxBegin)) :=
  denotes_constant 73 [.TRXBEGIN] rfl rfl (by decide) rfl rfl rfl

theorem denotes_sqlTrxCommit :
    Denotes .sqlTrxCommit (bodyPhrase.comap (fun _ : Unit => trxCommit)) :=
  denotes_constant 74 [.TRXCOMMIT] rfl rfl (by decide) rfl rfl rfl

theorem denotes_sqlTrxRollback :
    Denotes .sqlTrxRollback (bodyPhrase.comap (fun _ : Unit => trxRollback)) :=
  denotes_constant 75 [.TRXROLLBACK] rfl rfl (by decide) rfl rfl rfl

theorem denotes_sqlQuit : Denotes .sqlQuit (bodyPhrase.comap (fun _ : Unit => quit)) :=
  denotes_constant 76 [.QUIT] rfl rfl (by decide) rfl rfl rfl

theorem denotes_sqlExecFile : Denotes .sqlExecFile (bodyPhrase.comap execFile) := by
  intro ls t d
  have hrules : numbersOf .sqlExecFile = [77] := rfl
  have hrhs : rhsOf 77 = [.inl .EXECFILE, .inl .STRING] := rfl
  rw [derives_iff_one hrules hrhs]
  simp (disch := decide) only [derives_fixed_iff, derives_string_iff, derives_nil_iff,
    exists_and_left, and_assoc, ↓existsAndEq, true_and]
  exact ⟨fun ⟨s, hls, hd, ht⟩ => ⟨s, hls, hd, ht⟩, fun ⟨s, hls, hd, ht⟩ => ⟨s, hls, hd, ht⟩⟩

theorem denotes_sqlCreateTable : Denotes .sqlCreateTable
    (bodyPhrase.comap (fun x : StdString × DefinitionList => createTable x.1 x.2)) := by
  intro ls t d
  have hrules : numbersOf .sqlCreateTable = [27] := rfl
  have hrhs : rhsOf 27 = [.inl .CREATE, .inl .TABLE, .inl .IDENTIFIER, .inl .leftParenthesis,
    .inr .columnDefinitionList, .inl .rightParenthesis] := rfl
  have haction (a b c e g : SyntaxNode) (s : StdString) : yyaction 27 [a, b, name s, c, e, g] =
      tree .createTable none [name s, .node .columnDefinitionList none e .null] :=
    addChildren_two .createTable none (name s) (.node .columnDefinitionList none e .null)
  rw [derives_iff_one hrules hrhs]
  simp (disch := decide) only [derives_fixed_iff, derives_name_iff,
    denotes_columnDefinitionList.cons_iff, derives_nil_iff, exists_and_left, and_assoc,
    ↓existsAndEq, true_and, haction]
  constructor
  · rintro ⟨s, ds, rfl, rfl, rfl⟩
    exact ⟨(s, ds), rfl, rfl, rfl⟩
  · rintro ⟨⟨s, ds⟩, rfl, rfl, rfl⟩
    exact ⟨s, ds, rfl, rfl, rfl⟩

theorem denotes_sqlCreateIndex : Denotes .sqlCreateIndex
    (bodyPhrase.comap (fun x : StdString × StdString × Series StdString × Option StdString =>
      createIndex x.1 x.2.1 x.2.2.1 x.2.2.2)) := by
  intro ls t d
  have hrules : numbersOf .sqlCreateIndex = [39, 40] := rfl
  have hplain : rhsOf 39 = [.inl .CREATE, .inl .INDEX, .inl .IDENTIFIER, .inl .ON,
    .inl .IDENTIFIER, .inl .leftParenthesis, .inr .columnList, .inl .rightParenthesis] := rfl
  have husing : rhsOf 40 = [.inl .CREATE, .inl .INDEX, .inl .IDENTIFIER, .inl .ON,
    .inl .IDENTIFIER, .inl .leftParenthesis, .inr .columnList, .inl .rightParenthesis,
    .inl .USING, .inl .IDENTIFIER] := rfl
  have hplain' (a b c e g x : SyntaxNode) (n t : StdString) :
      yyaction 39 [a, b, name n, c, name t, e, x, g] =
        tree .createIndex none
          [name n, name t, .node .columnList (some (text "index keys")) x .null] := by
    have h : yyaction 39 [a, b, name n, c, name t, e, x, g] =
      (((tree .createIndex none []).addChildren (name n)).addChildren (name t)).addChildren
        (.node .columnList (some (text "index keys")) x .null) := rfl
    rw [h, tree_addChildren, tree_addChildren, tree_addChildren]
    rfl
  have husing' (a b c e g h x : SyntaxNode) (n t s : StdString) :
      yyaction 40 [a, b, name n, c, name t, e, x, g, h, name s] =
        tree .createIndex none [name n, name t,
          .node .columnList (some (text "index keys")) x .null,
          tree .indexType (some (text "index type")) [name s]] := by
    have h : yyaction 40 [a, b, name n, c, name t, e, x, g, h, name s] =
      ((((tree .createIndex none []).addChildren (name n)).addChildren (name t)).addChildren
        (.node .columnList (some (text "index keys")) x .null)).addChildren
          (tree .indexType (some (text "index type")) [name s]) := rfl
    rw [h, tree_addChildren, tree_addChildren, tree_addChildren, tree_addChildren]
    rfl
  rw [derives_iff_two hrules hplain husing]
  simp (disch := decide) only [derives_fixed_iff, derives_name_iff,
    denotes_columnList.cons_iff, derives_nil_iff, exists_and_left, and_assoc, ↓existsAndEq,
    true_and, hplain', husing']
  constructor
  · rintro (⟨n, t, cs, rfl, rfl, rfl⟩ | ⟨n, t, cs, s, rfl, rfl, rfl⟩)
    · exact ⟨(n, t, cs, none), rfl, rfl, rfl⟩
    · exact ⟨(n, t, cs, some s), rfl, rfl, rfl⟩
  · rintro ⟨⟨n, t, cs, type⟩, rfl, rfl, rfl⟩
    cases type with
    | none => exact .inl ⟨n, t, cs, rfl, rfl, rfl⟩
    | some s => exact .inr ⟨n, t, cs, s, rfl, rfl, rfl⟩

/-- A `where` is written behind a statement or left out. -/
theorem conditions_places (cs : Conditions) :
    max (Conditions.phrase.places cs) (0 + 1) = cs.places := by
  cases cs <;> rfl

theorem denotes_sqlSelect : Denotes .sqlSelect
    (bodyPhrase.comap (fun x : Option (Series StdString) × StdString × Option Conditions =>
      select x.1 x.2.1 x.2.2)) := by
  intro ls t d
  have hrules : numbersOf .sqlSelect = [43, 44] := rfl
  have hplain : rhsOf 43 = [.inl .SELECT, .inr .selectColumns, .inl .FROM, .inl .IDENTIFIER] := rfl
  have hwhere : rhsOf 44 = [.inl .SELECT, .inr .selectColumns, .inl .FROM, .inl .IDENTIFIER,
    .inl .WHERE, .inr .whereConditions] := rfl
  have hplain' (a b : SyntaxNode) (t : StdString) (cs : Option (Series StdString)) :
      yyaction 43 [a, columnsPhrase.node cs, b, name t] =
        tree .select none [columnsPhrase.node cs, name t] :=
    addChildren_two .select none (columnsPhrase.node cs) (name t)
  have hwhere' (a b c x : SyntaxNode) (t : StdString) (cs : Option (Series StdString)) :
      yyaction 44 [a, columnsPhrase.node cs, b, name t, c, x] =
        tree .select none
          [columnsPhrase.node cs, name t, tree .conditions none [x]] := by
    have h : yyaction 44 [a, columnsPhrase.node cs, b, name t, c, x] =
      (((tree .select none []).addChildren (columnsPhrase.node cs)).addChildren
        (name t)).addChildren (.node .conditions none x .null) := rfl
    rw [h, tree_addChildren, tree_addChildren, tree_addChildren, node_eq_tree]
    rfl
  rw [derives_iff_two hrules hplain hwhere]
  simp (disch := decide) only [derives_fixed_iff, derives_name_iff,
    denotes_selectColumns.cons_iff, denotes_whereConditions.cons_iff, derives_nil_iff,
    exists_and_left, and_assoc, ↓existsAndEq, true_and, hplain', hwhere', conditions_places,
    List.append_nil]
  constructor
  · rintro (⟨cs, t, rfl, rfl, rfl⟩ | ⟨cs, t, conditions, rfl, rfl, rfl⟩)
    · exact ⟨(cs, t, none), rfl, rfl, rfl⟩
    · exact ⟨(cs, t, some conditions), rfl, rfl, rfl⟩
  · rintro ⟨⟨cs, t, conditions⟩, rfl, rfl, rfl⟩
    cases conditions with
    | none => exact .inl ⟨cs, t, rfl, rfl, rfl⟩
    | some conditions => exact .inr ⟨cs, t, conditions, rfl, rfl, rfl⟩

theorem denotes_sqlInsert : Denotes .sqlInsert
    (bodyPhrase.comap (fun x : StdString × Series ValueClause => insert x.1 x.2)) := by
  intro ls t d
  have hrules : numbersOf .sqlInsert = [63] := rfl
  have hrhs : rhsOf 63 = [.inl .INSERT, .inl .INTO, .inl .IDENTIFIER, .inl .VALUES,
    .inl .leftParenthesis, .inr .columnValues, .inl .rightParenthesis] := rfl
  have haction (a b c e g x : SyntaxNode) (t : StdString) :
      yyaction 63 [a, b, name t, c, e, x, g] =
        tree .insert none [name t, .node .columnValues none x .null] :=
    addChildren_two .insert none (name t) (.node .columnValues none x .null)
  rw [derives_iff_one hrules hrhs]
  simp (disch := decide) only [derives_fixed_iff, derives_name_iff,
    denotes_columnValues.cons_iff, derives_nil_iff, exists_and_left, and_assoc, ↓existsAndEq,
    true_and, haction]
  constructor
  · rintro ⟨t, vs, rfl, rfl, rfl⟩
    exact ⟨(t, vs), rfl, rfl, rfl⟩
  · rintro ⟨⟨t, vs⟩, rfl, rfl, rfl⟩
    exact ⟨t, vs, rfl, rfl, rfl⟩

theorem denotes_sqlDelete : Denotes .sqlDelete
    (bodyPhrase.comap (fun x : StdString × Option Conditions => delete x.1 x.2)) := by
  intro ls t d
  have hrules : numbersOf .sqlDelete = [66, 67] := rfl
  have hplain : rhsOf 66 = [.inl .DELETE, .inl .FROM, .inl .IDENTIFIER] := rfl
  have hwhere : rhsOf 67 = [.inl .DELETE, .inl .FROM, .inl .IDENTIFIER, .inl .WHERE,
    .inr .whereConditions] := rfl
  have hplain' (a b : SyntaxNode) (t : StdString) :
      yyaction 66 [a, b, name t] = tree .delete none [name t] := rfl
  have hwhere' (a b c x : SyntaxNode) (t : StdString) :
      yyaction 67 [a, b, name t, c, x] =
        tree .delete none [name t, tree .conditions none [x]] := by
    rw [← node_eq_tree]
    exact addChildren_two .delete none (name t) (.node .conditions none x .null)
  rw [derives_iff_two hrules hplain hwhere]
  simp (disch := decide) only [derives_fixed_iff, derives_name_iff,
    denotes_whereConditions.cons_iff, derives_nil_iff, exists_and_left, and_assoc, ↓existsAndEq,
    true_and, hplain', hwhere', conditions_places, List.append_nil]
  constructor
  · rintro (⟨t, rfl, rfl, rfl⟩ | ⟨t, conditions, rfl, rfl, rfl⟩)
    · exact ⟨(t, none), rfl, rfl, rfl⟩
    · exact ⟨(t, some conditions), rfl, rfl, rfl⟩
  · rintro ⟨⟨t, conditions⟩, rfl, rfl, rfl⟩
    cases conditions with
    | none => exact .inl ⟨t, rfl, rfl, rfl⟩
    | some conditions => exact .inr ⟨t, conditions, rfl, rfl, rfl⟩

theorem denotes_sqlUpdate : Denotes .sqlUpdate
    (bodyPhrase.comap (fun x : StdString × Series SetClause × Option Conditions =>
      update x.1 x.2.1 x.2.2)) := by
  intro ls t d
  have hrules : numbersOf .sqlUpdate = [68, 69] := rfl
  have hplain : rhsOf 68 = [.inl .UPDATE, .inl .IDENTIFIER, .inl .SET, .inr .updateValues] := rfl
  have hwhere : rhsOf 69 = [.inl .UPDATE, .inl .IDENTIFIER, .inl .SET, .inr .updateValues,
    .inl .WHERE, .inr .whereConditions] := rfl
  have hplain' (a b x : SyntaxNode) (t : StdString) : yyaction 68 [a, name t, b, x] =
      tree .update none [name t, .node .updateValues none x .null] :=
    addChildren_two .update none (name t) (.node .updateValues none x .null)
  have hwhere' (a b c x y : SyntaxNode) (t : StdString) :
      yyaction 69 [a, name t, b, x, c, y] =
        tree .update none
          [name t, .node .updateValues none x .null, tree .conditions none [y]] := by
    have h : yyaction 69 [a, name t, b, x, c, y] =
      (((tree .update none []).addChildren (name t)).addChildren
        (.node .updateValues none x .null)).addChildren (.node .conditions none y .null) := rfl
    rw [h, tree_addChildren, tree_addChildren, tree_addChildren, ← node_eq_tree .conditions]
    rfl
  have hbody (t : StdString) (vs : Series SetClause) : (update t vs none).body =
      [.fixed .UPDATE, .identifier t, .fixed .SET] ++ (Series.phrase SetClause.phrase).lexemes vs :=
    congrArg (fun ls => [Lexeme.fixed .UPDATE, .identifier t, .fixed .SET] ++ ls)
      (List.append_nil _)
  rw [derives_iff_two hrules hplain hwhere]
  simp (disch := decide) only [derives_fixed_iff, derives_name_iff,
    denotes_updateValues.cons_iff, denotes_whereConditions.cons_iff, derives_nil_iff,
    exists_and_left, and_assoc, ↓existsAndEq, true_and, hplain', hwhere', conditions_places,
    List.append_nil]
  constructor
  · rintro (⟨t, vs, rfl, rfl, rfl⟩ | ⟨t, vs, conditions, rfl, rfl, rfl⟩)
    · exact ⟨(t, vs, none), (hbody t vs).symm, rfl, rfl⟩
    · exact ⟨(t, vs, some conditions), rfl, rfl, rfl⟩
  · rintro ⟨⟨t, vs, conditions⟩, rfl, rfl, rfl⟩
    cases conditions with
    | none => exact .inl ⟨t, vs, hbody t vs, rfl, rfl⟩
    | some conditions => exact .inr ⟨t, vs, conditions, rfl, rfl, rfl⟩

/-- The symbols that a statement may be. -/
def alternatives : List Nonterminal :=
  [.sqlCreateDatabase, .sqlDropDatabase, .sqlShowDatabases, .sqlUseDatabase, .sqlShowTables,
   .sqlCreateTable, .sqlDropTable, .sqlCreateIndex, .sqlDropIndex, .sqlShowIndexes, .sqlSelect,
   .sqlInsert, .sqlDelete, .sqlUpdate, .sqlTrxBegin, .sqlTrxCommit, .sqlTrxRollback, .sqlQuit,
   .sqlExecFile]

theorem rhsOf_sql : ∀ yyn ∈ numbersOf .sql, ∃ N ∈ alternatives, rhsOf yyn = [.inr N] := by
  decide +kernel

theorem exists_sql_rule : ∀ N ∈ alternatives, ∃ yyn ∈ numbersOf .sql, rhsOf yyn = [.inr N] := by
  decide +kernel

theorem yyaction_sql : ∀ yyn ∈ numbersOf .sql, ∀ x, yyaction yyn [x] = x := by
  simp only [numbersOf, List.forall_mem_cons, List.not_mem_nil, false_implies, implies_true,
    and_true]
  and_intros
  all_goals exact fun _ => rfl

/-- A statement is one of its alternatives. -/
theorem derives_sql_iff {ls : List Lexeme} {t : SyntaxNode} {d : ℕ} :
    Derives grammar [.inr .sql] (canon ls) [t] d ↔
      ∃ N ∈ alternatives, Derives grammar [.inr N] (canon ls) [t] d := by
  rw [derives_iff]
  constructor
  · rintro ⟨yyn, hyyn, us, h, rfl⟩
    obtain ⟨N, hN, hrhs⟩ := rhsOf_sql yyn hyyn
    rw [hrhs] at h
    obtain ⟨x, rfl⟩ := List.length_eq_one_iff.mp h.length_values
    rw [yyaction_sql yyn hyyn]
    exact ⟨N, hN, h⟩
  · rintro ⟨N, hN, h⟩
    obtain ⟨yyn, hyyn, hrhs⟩ := exists_sql_rule N hN
    exact ⟨yyn, hyyn, [t], hrhs ▸ h, yyaction_sql yyn hyyn t⟩

theorem denotes_sql : Denotes .sql bodyPhrase := by
  intro ls t d
  rw [derives_sql_iff]
  constructor
  · rintro ⟨N, hN, h⟩
    simp only [alternatives, List.mem_cons, List.not_mem_nil, or_false] at hN
    rcases hN with rfl | rfl | rfl | rfl | rfl | rfl | rfl | rfl | rfl | rfl |
      rfl | rfl | rfl | rfl | rfl | rfl | rfl | rfl | rfl
    · obtain ⟨x, hx⟩ := (denotes_sqlCreateDatabase _ _ _).mp h
      exact ⟨createDatabase x, hx⟩
    · obtain ⟨x, hx⟩ := (denotes_sqlDropDatabase _ _ _).mp h
      exact ⟨dropDatabase x, hx⟩
    · obtain ⟨x, hx⟩ := (denotes_sqlShowDatabases _ _ _).mp h
      exact ⟨showDatabases, hx⟩
    · obtain ⟨x, hx⟩ := (denotes_sqlUseDatabase _ _ _).mp h
      exact ⟨useDatabase x, hx⟩
    · obtain ⟨x, hx⟩ := (denotes_sqlShowTables _ _ _).mp h
      exact ⟨showTables, hx⟩
    · obtain ⟨x, hx⟩ := (denotes_sqlCreateTable _ _ _).mp h
      exact ⟨createTable x.1 x.2, hx⟩
    · obtain ⟨x, hx⟩ := (denotes_sqlDropTable _ _ _).mp h
      exact ⟨dropTable x, hx⟩
    · obtain ⟨x, hx⟩ := (denotes_sqlCreateIndex _ _ _).mp h
      exact ⟨createIndex x.1 x.2.1 x.2.2.1 x.2.2.2, hx⟩
    · obtain ⟨x, hx⟩ := (denotes_sqlDropIndex _ _ _).mp h
      exact ⟨dropIndex x, hx⟩
    · obtain ⟨x, hx⟩ := (denotes_sqlShowIndexes _ _ _).mp h
      exact ⟨showIndexes, hx⟩
    · obtain ⟨x, hx⟩ := (denotes_sqlSelect _ _ _).mp h
      exact ⟨select x.1 x.2.1 x.2.2, hx⟩
    · obtain ⟨x, hx⟩ := (denotes_sqlInsert _ _ _).mp h
      exact ⟨insert x.1 x.2, hx⟩
    · obtain ⟨x, hx⟩ := (denotes_sqlDelete _ _ _).mp h
      exact ⟨delete x.1 x.2, hx⟩
    · obtain ⟨x, hx⟩ := (denotes_sqlUpdate _ _ _).mp h
      exact ⟨update x.1 x.2.1 x.2.2, hx⟩
    · obtain ⟨x, hx⟩ := (denotes_sqlTrxBegin _ _ _).mp h
      exact ⟨trxBegin, hx⟩
    · obtain ⟨x, hx⟩ := (denotes_sqlTrxCommit _ _ _).mp h
      exact ⟨trxCommit, hx⟩
    · obtain ⟨x, hx⟩ := (denotes_sqlTrxRollback _ _ _).mp h
      exact ⟨trxRollback, hx⟩
    · obtain ⟨x, hx⟩ := (denotes_sqlQuit _ _ _).mp h
      exact ⟨quit, hx⟩
    · obtain ⟨x, hx⟩ := (denotes_sqlExecFile _ _ _).mp h
      exact ⟨execFile x, hx⟩
  · rintro ⟨c, hc⟩
    cases c with
    | createDatabase n =>
      exact ⟨.sqlCreateDatabase, by decide, (denotes_sqlCreateDatabase _ _ _).mpr ⟨n, hc⟩⟩
    | dropDatabase n =>
      exact ⟨.sqlDropDatabase, by decide, (denotes_sqlDropDatabase _ _ _).mpr ⟨n, hc⟩⟩
    | showDatabases =>
      exact ⟨.sqlShowDatabases, by decide, (denotes_sqlShowDatabases _ _ _).mpr ⟨(), hc⟩⟩
    | useDatabase n =>
      exact ⟨.sqlUseDatabase, by decide, (denotes_sqlUseDatabase _ _ _).mpr ⟨n, hc⟩⟩
    | showTables =>
      exact ⟨.sqlShowTables, by decide, (denotes_sqlShowTables _ _ _).mpr ⟨(), hc⟩⟩
    | createTable n ds =>
      exact ⟨.sqlCreateTable, by decide, (denotes_sqlCreateTable _ _ _).mpr ⟨(n, ds), hc⟩⟩
    | dropTable n =>
      exact ⟨.sqlDropTable, by decide, (denotes_sqlDropTable _ _ _).mpr ⟨n, hc⟩⟩
    | createIndex n t cs type =>
      exact ⟨.sqlCreateIndex, by decide, (denotes_sqlCreateIndex _ _ _).mpr ⟨(n, t, cs, type), hc⟩⟩
    | dropIndex n =>
      exact ⟨.sqlDropIndex, by decide, (denotes_sqlDropIndex _ _ _).mpr ⟨n, hc⟩⟩
    | showIndexes =>
      exact ⟨.sqlShowIndexes, by decide, (denotes_sqlShowIndexes _ _ _).mpr ⟨(), hc⟩⟩
    | select cs t conditions =>
      exact ⟨.sqlSelect, by decide, (denotes_sqlSelect _ _ _).mpr ⟨(cs, t, conditions), hc⟩⟩
    | insert t vs =>
      exact ⟨.sqlInsert, by decide, (denotes_sqlInsert _ _ _).mpr ⟨(t, vs), hc⟩⟩
    | delete t conditions =>
      exact ⟨.sqlDelete, by decide, (denotes_sqlDelete _ _ _).mpr ⟨(t, conditions), hc⟩⟩
    | update t vs conditions =>
      exact ⟨.sqlUpdate, by decide, (denotes_sqlUpdate _ _ _).mpr ⟨(t, vs, conditions), hc⟩⟩
    | trxBegin =>
      exact ⟨.sqlTrxBegin, by decide, (denotes_sqlTrxBegin _ _ _).mpr ⟨(), hc⟩⟩
    | trxCommit =>
      exact ⟨.sqlTrxCommit, by decide, (denotes_sqlTrxCommit _ _ _).mpr ⟨(), hc⟩⟩
    | trxRollback =>
      exact ⟨.sqlTrxRollback, by decide, (denotes_sqlTrxRollback _ _ _).mpr ⟨(), hc⟩⟩
    | quit =>
      exact ⟨.sqlQuit, by decide, (denotes_sqlQuit _ _ _).mpr ⟨(), hc⟩⟩
    | execFile s =>
      exact ⟨.sqlExecFile, by decide, (denotes_sqlExecFile _ _ _).mpr ⟨s, hc⟩⟩

/-- **The statements are the commands**: what is derived from the start symbol is how
the commands are written, with their trees. -/
theorem denotes_start : Denotes .start Command.phrase := by
  intro ls t d
  have hrules : numbersOf .start = [2] := rfl
  have hrhs : rhsOf 2 = [.inr .sql, .inl .semicolon] := rfl
  have haction (x y : SyntaxNode) : yyaction 2 [x, y] = x := rfl
  rw [derives_iff_one hrules hrhs]
  simp (disch := decide) only [derives_fixed_iff, denotes_sql.cons_iff, derives_nil_iff,
    exists_and_left, and_assoc, ↓existsAndEq, true_and, haction]
  exact Iff.rfl

/-! ## What `yyparse` returns -/

/-- The tokens are the lexemes. -/
theorem length_yylvals (yylval : SyntaxNode) (input : List Scanned) :
    (yylvals yylval input).length = (lexemes input).length := by
  have h := congrArg List.length (yylvals_normal yylval input)
  rwa [List.length_map, List.length_map, canon, List.length_map] at h

/-- The commands that the input is, or begins with, by their derivations. -/
theorem derives_command_iff {yylval : SyntaxNode} {input : List Scanned} {t : SyntaxNode} {d : ℕ} :
    Derives grammar [.inr .start] (yylvals yylval input) [t] d ↔
      ∃ c, lexemes input = phrase.lexemes c ∧ d = phrase.places c ∧ phrase.node c = t := by
  rw [derives_yylvals_iff, denotes_start]

theorem derives_command_prefix_iff {yylval : SyntaxNode} {input : List Scanned} {t : SyntaxNode}
    {d : ℕ} :
    (∃ u rest, yylvals yylval input = u ++ rest ∧ Derives grammar [.inr .start] u [t] d) ↔
      ∃ c rest, lexemes input = phrase.lexemes c ++ rest ∧ d = phrase.places c ∧
        phrase.node c = t := by
  rw [derives_prefix_iff]
  constructor
  · rintro ⟨ls, rest, hls, h⟩
    obtain ⟨c, rfl, rfl, rfl⟩ := (denotes_start _ _ _).mp h
    exact ⟨c, rest, hls, rfl, rfl⟩
  · rintro ⟨c, rest, hls, rfl, rfl⟩
    exact ⟨_, rest, hls, (denotes_start _ _ _).mpr ⟨c, rfl, rfl, rfl⟩⟩

/-- **What `yyparse` does with any text.** It returns, and it returns 0 if the text is a
command that finds place on the stack. The root is the tree of such a command that the
text begins with, whatever comes behind it and whatever is returned, and null if there
is none. The memory is exhausted by every command that finds no place, and by no text
of fewer tokens than places. The error is set if anything but 0 is returned, and where
a character begins no token. -/
theorem yyparse_command (yylval : SyntaxNode) (input : List Scanned) :
    ∃ s yyresult, (∀ rounds, enoughRounds input.length ≤ rounds →
        yyparse rounds yylval input = some (s, yyresult)) ∧
      (yyresult = 0 ↔ ∃ c, lexemes input = phrase.lexemes c ∧ phrase.places c ≤ places) ∧
      (∀ c rest, lexemes input = phrase.lexemes c ++ rest → phrase.places c ≤ places →
        s.root = c.node) ∧
      (s.root = .null ∨ ∃ c rest, lexemes input = phrase.lexemes c ++ rest ∧
        phrase.places c ≤ places ∧ s.root = c.node) ∧
      (yyresult = 2 → places < (lexemes input).length) ∧
      (∀ c, lexemes input = phrase.lexemes c → places < phrase.places c → yyresult = 2) ∧
      yyresult ≤ 2 ∧ (s.error = none ↔ yyresult = 0 ∧ ∀ x ∈ input, x.lexeme.isSome) := by
  obtain ⟨s, yyresult, hruns, hzero, hroot, hnull, htwo, hdeep, hle, herror⟩ :=
    yyparse_spec yylval input
  refine ⟨s, yyresult, hruns, ?_, ?_, ?_, ?_, ?_, hle, herror⟩
  · rw [hzero]
    constructor
    · rintro ⟨t, d, h, hd⟩
      obtain ⟨c, hc, rfl, -⟩ := derives_command_iff.mp h
      exact ⟨c, hc, hd⟩
    · rintro ⟨c, hc, hd⟩
      exact ⟨_, _, derives_command_iff.mpr ⟨c, hc, rfl, rfl⟩, hd⟩
  · intro c rest hc hd
    obtain ⟨u, rest', hw, h⟩ := derives_command_prefix_iff.mpr ⟨c, rest, hc, rfl, rfl⟩
    exact hroot _ u rest' _ hw h hd
  · rcases hnull with h | ⟨u, rest', d, hw, hu, hd⟩
    · exact .inl h
    · obtain ⟨c, rest, hc, rfl, hnode⟩ := derives_command_prefix_iff.mp ⟨u, rest', hw, hu⟩
      exact .inr ⟨c, rest, hc, hd, hnode.symm⟩
  · intro h
    rw [← length_yylvals yylval input]
    exact htwo h
  · intro c hc hd
    exact hdeep _ _ (derives_command_iff.mpr ⟨c, hc, rfl, rfl⟩) hd

/-- **No command is the beginning of another one**, and one that is written the same way
has the same tree. -/
theorem command_unique {c c' : Command} {rest rest' : List Lexeme}
    (h : phrase.lexemes c ++ rest = phrase.lexemes c' ++ rest') :
    phrase.lexemes c = phrase.lexemes c' ∧ c.node = c'.node := by
  have hc := (denotes_start _ _ _).mpr ⟨c, rfl, rfl, rfl⟩
  have hc' := (denotes_start _ _ _).mpr ⟨c', rfl, rfl, rfl⟩
  have hcanon := congrArg canon h
  rw [canon_append, canon_append] at hcanon
  obtain ⟨hlexemes, hnode⟩ := forward.unique grammar_rhs_ne_nil hc hc' hcanon
  have hlength := congrArg List.length hlexemes
  rw [canon, canon, List.length_map, List.length_map] at hlength
  exact ⟨(List.append_inj h hlength).1, hnode⟩

end MiniSql.Parser
