import MiniSql.Yyparse

/-!
# Derivations of lexemes

A token that has one text only leaves `yylval` as it was, so that what stands at its
place on the stack is whatever came before. No action uses it (`value_erase`), and so
the trees depend on the lexemes alone (`derives_yylvals_iff`). For these, a derivation
is taken apart rule by rule and symbol by symbol.
-/

namespace MiniSql.Parser

open Grammar MiniSql.Parser.SyntaxNode

/-- The tokens of lexemes with their nodes, and without what `yylval` was before. -/
def canon (ls : List Lexeme) : List (Token × SyntaxNode) :=
  ls.map (fun l => (l.token, l.node.getD .null))

@[simp] theorem canon_nil : canon [] = [] := rfl

@[simp] theorem canon_cons (l : Lexeme) (ls : List Lexeme) :
    canon (l :: ls) = (l.token, l.node.getD .null) :: canon ls := rfl

@[simp] theorem canon_append (ls ls' : List Lexeme) :
    canon (ls ++ ls') = canon ls ++ canon ls' := List.map_append

/-! ## Values that no action uses -/

/-- A value, unless it is at the place of a token that has one text only. -/
def relevant : Token ⊕ Nonterminal → SyntaxNode → SyntaxNode
  | .inl a, v => if a.spelling.isSome then .null else v
  | .inr _, v => v

/-- The values of some symbols that are relevant. -/
def erase (β : List (Token ⊕ Nonterminal)) (vs : List SyntaxNode) : List SyntaxNode :=
  List.zipWith relevant β vs

theorem getD_erase (β : List (Token ⊕ Nonterminal)) (vs : List SyntaxNode) (i : ℕ) :
    (erase β vs).getD i .null = ((β[i]?).map (fun X => relevant X (vs.getD i .null))).getD .null := by
  have hnull (X : Token ⊕ Nonterminal) : relevant X .null = .null := by
    cases X with
    | inl a => exact ite_self _
    | inr N => rfl
  induction β generalizing vs i with
  | nil => cases i <;> rfl
  | cons X β ih =>
    cases vs with
    | nil =>
      have hnil : (erase (X :: β) []).getD i .null = .null := rfl
      have hget : (([] : List SyntaxNode).getD i .null) = .null := rfl
      rw [hnil, hget]
      cases (X :: β)[i]? with
      | none => rfl
      | some Y => exact (hnull Y).symm
    | cons v vs =>
      cases i with
      | zero => rfl
      | succ i => exact ih vs i

/-- **No action uses the value of a token that has one text only.** -/
theorem value_erase (r : Fin rules.length) (vs : List SyntaxNode) :
    (grammar r).value (erase (grammar r).rhs vs) = (grammar r).value vs := by
  have hrule (lhs : Nonterminal) (rhs : List (Token ⊕ Nonterminal))
      (action : (ℕ → SyntaxNode) → SyntaxNode) :
      (rule lhs rhs action).value (erase rhs vs) =
        action (fun i => ((rhs[i - 1]?).map (fun X => relevant X (vs.getD (i - 1) .null))).getD
          .null) := by
    simp only [rule, getD_erase]
  have hall : ∀ r ∈ rules, r.value (erase r.rhs vs) = r.value vs := by
    unfold rules
    simp only [List.forall_mem_cons, List.not_mem_nil, false_implies, implies_true, and_true]
    and_intros
    all_goals exact (hrule _ _ _).trans rfl
  exact hall _ (List.get_mem rules r)

/-- A token with its value, if that is relevant. -/
def normal (x : Token × SyntaxNode) : Token × SyntaxNode := (x.1, relevant (.inl x.1) x.2)

/-- A derivation does not depend on values that are not relevant. -/
theorem derives_of_normal {β : List (Token ⊕ Nonterminal)} {w w' : List (Token × SyntaxNode)}
    {vs : List SyntaxNode} {d : ℕ} (h : Derives grammar β w vs d)
    (hw : w'.map normal = w.map normal) :
    ∃ vs', Derives grammar β w' vs' d ∧ erase β vs' = erase β vs := by
  induction h generalizing w' with
  | nil =>
    cases List.map_eq_nil_iff.mp hw
    exact ⟨[], .nil, rfl⟩
  | @token a v β w vs d _ ih =>
    obtain ⟨x, w₁, rfl, hx, hw₁⟩ := List.map_eq_cons_iff.mp hw
    obtain ⟨vs', h', herase⟩ := ih hw₁
    obtain ⟨a', v'⟩ := x
    cases congrArg Prod.fst hx
    have hv : relevant (.inl a) v' = relevant (.inl a) v := congrArg Prod.snd hx
    exact ⟨v' :: vs', h'.token, congrArg₂ List.cons hv herase⟩
  | @rule r β u w us vs e d _ _ ihu ih =>
    rw [List.map_append] at hw
    obtain ⟨u', w₁, rfl, hu', hw₁⟩ := List.map_eq_append_iff.mp hw
    obtain ⟨us', hus', heraseu⟩ := ihu hu'
    obtain ⟨vs', h', herase⟩ := ih hw₁
    have hvalue : (grammar r).value us' = (grammar r).value us := by
      rw [← value_erase r us', heraseu, value_erase]
    refine ⟨(grammar r).value us' :: vs', hus'.rule h', ?_⟩
    exact congrArg₂ List.cons hvalue herase

/-- The tokens among what the scanner finds. -/
def lexemes (input : List Scanned) : List Lexeme := input.filterMap Scanned.lexeme

/-- Only a token with a node can have more than one text. -/
theorem spelling_isSome_of_node {l : Lexeme} (h : l.node = none) : l.token.spelling.isSome := by
  unfold Lexeme.node at h
  split at h
  · cases h
  · cases h
  · cases h
  · cases htoken : l.token <;> first | rfl | exact absurd htoken ‹_›

theorem yylvals_normal (yylval : SyntaxNode) (input : List Scanned) :
    (yylvals yylval input).map normal = (canon (lexemes input)).map normal := by
  induction input generalizing yylval with
  | nil => rfl
  | cons x input ih =>
    cases x with
    | unrecognized yytext => exact ih yylval
    | token l =>
      have hl : normal (l.token, l.node.getD yylval) = normal (l.token, l.node.getD .null) := by
        cases hnode : l.node with
        | some n => rfl
        | none =>
          have hsome := spelling_isSome_of_node hnode
          simp only [normal, relevant, hsome, if_true]
      exact congrArg₂ List.cons hl (ih _)

/-- **The tree of a derivation depends on the lexemes alone.** -/
theorem derives_iff_of_normal {N : Nonterminal} {w w' : List (Token × SyntaxNode)}
    {t : SyntaxNode} {d : ℕ} (hw : w'.map normal = w.map normal) :
    Derives grammar [.inr N] w' [t] d ↔ Derives grammar [.inr N] w [t] d := by
  have hone {u u' : List (Token × SyntaxNode)} (hu : u'.map normal = u.map normal)
      (h : Derives grammar [.inr N] u [t] d) : Derives grammar [.inr N] u' [t] d := by
    obtain ⟨vs, h', herase⟩ := derives_of_normal h hu
    have hlength : vs.length = 1 := h'.length_values
    obtain ⟨t', rfl⟩ := List.length_eq_one_iff.mp hlength
    cases herase
    exact h'
  exact ⟨hone hw.symm, hone hw⟩

theorem derives_yylvals_iff {N : Nonterminal} {yylval : SyntaxNode} {input : List Scanned}
    {t : SyntaxNode} {d : ℕ} :
    Derives grammar [.inr N] (yylvals yylval input) [t] d ↔
      Derives grammar [.inr N] (canon (lexemes input)) [t] d :=
  derives_iff_of_normal (yylvals_normal yylval input)

/-- The same for what the input begins with. -/
theorem derives_prefix_iff {N : Nonterminal} {yylval : SyntaxNode} {input : List Scanned}
    {t : SyntaxNode} {d : ℕ} :
    (∃ u rest, yylvals yylval input = u ++ rest ∧ Derives grammar [.inr N] u [t] d) ↔
      ∃ ls ls', lexemes input = ls ++ ls' ∧ Derives grammar [.inr N] (canon ls) [t] d := by
  have hnormal := yylvals_normal yylval input
  constructor
  · rintro ⟨u, rest, hw, hu⟩
    have hmap : (canon (lexemes input)).map normal = u.map normal ++ rest.map normal := by
      rw [← hnormal, hw, List.map_append]
    unfold canon at hmap
    rw [List.map_map] at hmap
    obtain ⟨ls, ls', hls, hu', -⟩ := List.map_eq_append_iff.mp hmap
    refine ⟨ls, ls', hls, (derives_iff_of_normal ?_).mp hu⟩
    rw [← hu', canon, List.map_map]
  · rintro ⟨ls, ls', hls, h⟩
    rw [hls, canon_append, List.map_append] at hnormal
    obtain ⟨u, rest, hw, hu, -⟩ := List.map_eq_append_iff.mp hnormal
    exact ⟨u, rest, hw, (derives_iff_of_normal hu).mpr h⟩

/-! ## Taking derivations apart -/

section Parts

variable {β : List (Token ⊕ Nonterminal)} {ls : List Lexeme} {vs : List SyntaxNode} {d : ℕ}

theorem derives_nil_iff :
    Derives grammar [] (canon ls) vs d ↔ ls = [] ∧ vs = [] ∧ d = 0 := by
  constructor
  · intro h
    generalize hw : canon ls = w at h
    cases h
    exact ⟨List.map_eq_nil_iff.mp hw, rfl, rfl⟩
  · rintro ⟨rfl, rfl, rfl⟩
    exact .nil

theorem derives_token_iff {a : Token} :
    Derives grammar (.inl a :: β) (canon ls) vs d ↔
      ∃ l ls' vs' d', Derives grammar β (canon ls') vs' d' ∧ l.token = a ∧ ls = l :: ls' ∧
        vs = l.node.getD .null :: vs' ∧ d = d' + 1 := by
  constructor
  · intro h
    generalize hw : canon ls = w at h
    cases h with
    | @token _ v _ w vs d h =>
      obtain ⟨l, ls', rfl, hl, rfl⟩ := List.map_eq_cons_iff.mp hw
      cases hl
      exact ⟨l, ls', vs, d, h, rfl, rfl, rfl, rfl⟩
  · rintro ⟨l, ls', vs', d', h, rfl, rfl, rfl, rfl⟩
    exact h.token

theorem derives_rule_iff {N : Nonterminal} :
    Derives grammar (.inr N :: β) (canon ls) vs d ↔
      ∃ ls₁ ls₂ t vs' e d', Derives grammar [.inr N] (canon ls₁) [t] e ∧
        Derives grammar β (canon ls₂) vs' d' ∧ ls = ls₁ ++ ls₂ ∧ vs = t :: vs' ∧
        d = max e (d' + 1) := by
  constructor
  · intro h
    generalize hw : canon ls = w at h
    cases h with
    | @rule r _ u w us vs e d hu h =>
      obtain ⟨ls₁, ls₂, rfl, rfl, rfl⟩ := List.map_eq_append_iff.mp hw
      have hpos : 1 ≤ e :=
        (List.length_pos_iff.mpr (grammar_rhs_ne_nil r)).trans_le hu.length_le_height
      have hone := hu.rule (.nil : Derives grammar [] [] [] 0)
      rw [List.append_nil, Nat.max_eq_left hpos] at hone
      exact ⟨ls₁, ls₂, _, vs, e, d, hone, h, rfl, rfl, rfl⟩
  · rintro ⟨ls₁, ls₂, t, vs', e, d', h, h', rfl, rfl, rfl⟩
    have happend := h.append h'
    have hpos := h.length_le_height
    rw [canon_append]
    simpa only [List.singleton_append, List.length_singleton, Nat.add_comm 1] using happend

/-- A token that has one text only. -/
theorem derives_fixed_iff {a : Token} (ha : a.spelling.isSome) :
    Derives grammar (.inl a :: β) (canon ls) vs d ↔
      ∃ ls' vs' d', Derives grammar β (canon ls') vs' d' ∧ ls = .fixed a :: ls' ∧
        vs = .null :: vs' ∧ d = d' + 1 := by
  have hnode : (Lexeme.fixed a).node = none := by
    cases a <;> first | rfl | cases ha
  rw [derives_token_iff]
  constructor
  · rintro ⟨l, ls', vs', d', h, rfl, rfl, rfl, rfl⟩
    obtain ⟨s, hs⟩ := Option.isSome_iff_exists.mp ha
    have htext : (Lexeme.fixed l.token).yytext = s := congrArg (·.getD []) hs
    have hl : l = .fixed l.token := Lexeme.ext_iff.mpr ⟨rfl, (l.spelled s hs).trans htext.symm⟩
    rw [← hl] at hnode
    exact ⟨ls', vs', d', h, congrArg (· :: ls') hl, by rw [hnode, Option.getD_none], rfl⟩
  · rintro ⟨ls', vs', d', h, rfl, rfl, rfl⟩
    exact ⟨_, ls', vs', d', h, rfl, rfl, by rw [hnode, Option.getD_none], rfl⟩

/-- A token with its own text and its own node. -/
theorem derives_named_iff {a : Token} {type : SyntaxNodeType} {make : StdString → Lexeme}
    (hmake : ∀ l : Lexeme, l.token = a ↔ l = make l.yytext)
    (htoken : ∀ s, (make s).token = a)
    (hnode : ∀ s, (make s).node = some (.create type (some s))) :
    Derives grammar (.inl a :: β) (canon ls) vs d ↔
      ∃ s ls' vs' d', Derives grammar β (canon ls') vs' d' ∧ ls = make s :: ls' ∧
        vs = .create type (some s) :: vs' ∧ d = d' + 1 := by
  rw [derives_token_iff]
  constructor
  · rintro ⟨l, ls', vs', d', h, hl, rfl, rfl, rfl⟩
    rw [hmake] at hl
    rw [hl, hnode]
    exact ⟨_, ls', vs', d', h, rfl, rfl, rfl⟩
  · rintro ⟨s, ls', vs', d', h, rfl, rfl, rfl⟩
    exact ⟨make s, ls', vs', d', h, htoken s, rfl, by rw [hnode, Option.getD_some], rfl⟩

theorem derives_identifier_iff :
    Derives grammar (.inl .IDENTIFIER :: β) (canon ls) vs d ↔
      ∃ s ls' vs' d', Derives grammar β (canon ls') vs' d' ∧ ls = .identifier s :: ls' ∧
        vs = .create .identifier (some s) :: vs' ∧ d = d' + 1 :=
  derives_named_iff (fun _ => by rw [Lexeme.ext_iff]; exact (and_iff_left rfl).symm)
    (fun _ => rfl) (fun _ => rfl)

theorem derives_string_iff :
    Derives grammar (.inl .STRING :: β) (canon ls) vs d ↔
      ∃ s ls' vs' d', Derives grammar β (canon ls') vs' d' ∧ ls = .string s :: ls' ∧
        vs = .create .string (some s) :: vs' ∧ d = d' + 1 :=
  derives_named_iff (fun _ => by rw [Lexeme.ext_iff]; exact (and_iff_left rfl).symm)
    (fun _ => rfl) (fun _ => rfl)

theorem derives_number_iff :
    Derives grammar (.inl .NUMBER :: β) (canon ls) vs d ↔
      ∃ s ls' vs' d', Derives grammar β (canon ls') vs' d' ∧ ls = .number s :: ls' ∧
        vs = .create .number (some s) :: vs' ∧ d = d' + 1 :=
  derives_named_iff (fun _ => by rw [Lexeme.ext_iff]; exact (and_iff_left rfl).symm)
    (fun _ => rfl) (fun _ => rfl)

end Parts

/-- The numbers of the rules for a symbol. -/
def numbersOf : Nonterminal → List ℕ
  | .start => [2]
  | .sql => [3, 4, 5, 6, 7, 8, 9, 10, 11, 12, 13, 14, 15, 16, 17, 18, 19, 20, 21]
  | .sqlCreateDatabase => [22]
  | .sqlDropDatabase => [23]
  | .sqlShowDatabases => [24]
  | .sqlUseDatabase => [25]
  | .sqlShowTables => [26]
  | .sqlCreateTable => [27]
  | .columnList => [28, 29]
  | .columnDefinitionList => [30, 31, 32]
  | .columnDefinition => [33, 34]
  | .columnType => [35, 36, 37]
  | .sqlDropTable => [38]
  | .sqlCreateIndex => [39, 40]
  | .sqlDropIndex => [41]
  | .sqlShowIndexes => [42]
  | .sqlSelect => [43, 44]
  | .selectColumns => [45, 46]
  | .whereConditions => [47, 48]
  | .connector => [49, 50]
  | .whereCondition => [51]
  | .columnValue => [52, 53, 54]
  | .operator => [55, 56, 57, 58, 59, 60, 61, 62]
  | .sqlInsert => [63]
  | .columnValues => [64, 65]
  | .sqlDelete => [66, 67]
  | .sqlUpdate => [68, 69]
  | .updateValues => [70, 71]
  | .updateValue => [72]
  | .sqlTrxBegin => [73]
  | .sqlTrxCommit => [74]
  | .sqlTrxRollback => [75]
  | .sqlQuit => [76]
  | .sqlExecFile => [77]

theorem numbersOf_sound : ∀ N ∈ Nonterminal.all, ∀ yyn ∈ numbersOf N,
    2 ≤ yyn ∧ ∃ r : Fin rules.length, (grammar r).lhs = N ∧ (r : ℕ) = yyn - 2 := by
  decide +kernel

theorem numbersOf_complete : ∀ r : Fin rules.length, (r : ℕ) + 2 ∈ numbersOf (grammar r).lhs := by
  decide +kernel

theorem mem_numbersOf {N : Nonterminal} {yyn : ℕ} :
    yyn ∈ numbersOf N ↔ ∃ r : Fin rules.length, (grammar r).lhs = N ∧ yyn = r + 2 := by
  constructor
  · intro h
    obtain ⟨htwo, r, hr, hyyn⟩ := numbersOf_sound N N.mem_all yyn h
    exact ⟨r, hr, by omega⟩
  · rintro ⟨r, rfl, rfl⟩
    exact numbersOf_complete r

theorem rhsOf_add_two (r : Fin rules.length) : rhsOf (r + 2) = (grammar r).rhs :=
  rhsOf_number (some r)

/-- **A symbol is derived by one of its rules.** -/
theorem derives_iff {N : Nonterminal} {ls : List Lexeme} {t : SyntaxNode} {d : ℕ} :
    Derives grammar [.inr N] (canon ls) [t] d ↔
      ∃ yyn ∈ numbersOf N, ∃ us, Derives grammar (rhsOf yyn) (canon ls) us d ∧
        yyaction yyn us = t := by
  constructor
  · intro h
    generalize hw : canon ls = w at h ⊢
    cases h with
    | @rule r _ u w us vs e d hu hnil =>
      cases hnil
      have hpos : 1 ≤ e :=
        (List.length_pos_iff.mpr (grammar_rhs_ne_nil r)).trans_le hu.length_le_height
      refine ⟨r + 2, mem_numbersOf.mpr ⟨r, rfl, rfl⟩, us, ?_, yyaction_eq r us⟩
      rw [List.append_nil, Nat.zero_add, Nat.max_eq_left hpos, rhsOf_add_two]
      exact hu
  · rintro ⟨yyn, hyyn, us, hu, rfl⟩
    obtain ⟨r, rfl, rfl⟩ := mem_numbersOf.mp hyyn
    rw [rhsOf_add_two] at hu
    have hpos : 1 ≤ d :=
      (List.length_pos_iff.mpr (grammar_rhs_ne_nil r)).trans_le hu.length_le_height
    have h := Derives.rule hu (.nil : Derives grammar [] [] [] 0)
    rw [List.append_nil, Nat.zero_add, Nat.max_eq_left hpos] at h
    rw [yyaction_eq]
    exact h

end MiniSql.Parser
