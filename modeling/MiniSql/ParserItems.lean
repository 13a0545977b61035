import MiniSql.MinisqlGrammar
import MiniSql.ShiftReduce

/-!
# What the states of the parser stand for

The tables of `minisql_yacc.c` as an automaton, and the items of its states. The
items are not in the source; they are what the tables were made from. That the
tables follow them is looked up state by state (`forward`, `backward`), and makes the
automaton a parser of the grammar.
-/

namespace MiniSql.Parser

open Grammar ShiftReduce

/-- The number of what comes next. -/
def nextToken (next : Option Token) : ℕ := (next.map (fun t => yytoken t.code)).getD 0

/-- A decision, as one by the rules of the grammar. -/
def Decision.action : Decision → Action ℕ (Fin rules.length)
  | .shift yystate => .shift yystate
  | .reduce yyn => if h : yyn - 2 < rules.length then .reduce ⟨yyn - 2, h⟩ else .error
  | .accept => .accept
  | .error => .error

/-- The tables as an automaton. -/
def automaton : Automaton ℕ (Fin rules.length) Token Nonterminal where
  start := 0
  action yystate next := (yydecision yystate (nextToken next)).action
  goto below N := yygoto below N.symbol

section Decisions

variable {q q' : ℕ} {next : Option Token} {r : Fin rules.length}

theorem action_eq_shift (h : automaton.action q next = .shift q') :
    yydecision q (nextToken next) = .shift q' := by
  simp only [automaton, Decision.action] at h
  split at h
  · cases h
    assumption
  · split at h <;> cases h
  · cases h
  · cases h

theorem action_eq_reduce (h : automaton.action q next = .reduce r) :
    ∃ yyn : ℕ, yyn - 2 = (r : ℕ) ∧ yydecision q (nextToken next) = .reduce yyn := by
  simp only [automaton, Decision.action] at h
  split at h
  · cases h
  · split at h
    · cases h
      exact ⟨_, rfl, by assumption⟩
    · cases h
  · cases h
  · cases h

theorem action_eq_accept (h : automaton.action q next = .accept) :
    yydecision q (nextToken next) = .accept := by
  simp only [automaton, Decision.action] at h
  split at h
  · cases h
  · split at h <;> cases h
  · assumption
  · cases h

end Decisions

/-! ## The items -/

/-- Every token, and the end of the input. -/
def anything : List (Option Token) := none :: Token.all.map some

private abbrev atEnd : List (Option Token) := [some .semicolon]

private abbrev atClose : List (Option Token) := [some .rightParenthesis]

private abbrev atName : List (Option Token) := [some .IDENTIFIER]

private abbrev atFrom : List (Option Token) := [some .FROM]

private abbrev atValue : List (Option Token) := [some .FLAGNULL, some .STRING, some .NUMBER]

private abbrev atType : List (Option Token) := [some .UNIQUE, some .rightParenthesis, some .comma]

private abbrev afterColumns : List (Option Token) := [some .FROM, some .rightParenthesis]

private abbrev inList : List (Option Token) := [some .rightParenthesis, some .comma]

private abbrev inSet : List (Option Token) := [some .WHERE, some .semicolon, some .comma]

private abbrev inWhere : List (Option Token) := [some .AND, some .OR, some .semicolon]

private abbrev afterSet : List (Option Token) := [some .WHERE, some .semicolon]

private abbrev afterValue : List (Option Token) :=
  [some .WHERE, some .AND, some .OR, some .semicolon, some .rightParenthesis, some .comma]

/-- The items of each state: the number of a rule, how much of it has been read, and
what may come after it. -/
def items : List (List (ℕ × ℕ × List (Option Token))) :=
  [[(1, 0, anything), (2, 0, anything), (3, 0, atEnd), (4, 0, atEnd), (5, 0, atEnd),
    (6, 0, atEnd), (7, 0, atEnd), (8, 0, atEnd), (9, 0, atEnd), (10, 0, atEnd), (11, 0, atEnd),
    (12, 0, atEnd), (13, 0, atEnd), (14, 0, atEnd), (15, 0, atEnd), (16, 0, atEnd),
    (17, 0, atEnd), (18, 0, atEnd), (19, 0, atEnd), (20, 0, atEnd), (21, 0, atEnd),
    (22, 0, atEnd), (23, 0, atEnd), (24, 0, atEnd), (25, 0, atEnd), (26, 0, atEnd),
    (27, 0, atEnd), (38, 0, atEnd), (39, 0, atEnd), (40, 0, atEnd), (41, 0, atEnd),
    (42, 0, atEnd), (43, 0, atEnd), (44, 0, atEnd), (63, 0, atEnd), (66, 0, atEnd),
    (67, 0, atEnd), (68, 0, atEnd), (69, 0, atEnd), (73, 0, atEnd), (74, 0, atEnd),
    (75, 0, atEnd), (76, 0, atEnd), (77, 0, atEnd)],
   [(22, 1, atEnd), (27, 1, atEnd), (39, 1, atEnd), (40, 1, atEnd)],
   [(23, 1, atEnd), (38, 1, atEnd), (41, 1, atEnd)],
   [(28, 0, atFrom), (29, 0, atFrom), (43, 1, atEnd), (44, 1, atEnd), (45, 0, atFrom),
    (46, 0, atFrom)], [(63, 1, atEnd)], [(66, 1, atEnd), (67, 1, atEnd)],
   [(68, 1, atEnd), (69, 1, atEnd)], [(73, 1, atEnd)], [(74, 1, atEnd)], [(75, 1, atEnd)],
   [(76, 1, atEnd)], [(77, 1, atEnd)], [(24, 1, atEnd), (26, 1, atEnd), (42, 1, atEnd)],
   [(25, 1, atEnd)], [(1, 1, anything)], [(2, 1, anything)], [(3, 1, atEnd)], [(4, 1, atEnd)],
   [(5, 1, atEnd)], [(6, 1, atEnd)], [(7, 1, atEnd)], [(8, 1, atEnd)], [(9, 1, atEnd)],
   [(10, 1, atEnd)], [(11, 1, atEnd)], [(12, 1, atEnd)], [(13, 1, atEnd)], [(14, 1, atEnd)],
   [(15, 1, atEnd)], [(16, 1, atEnd)], [(17, 1, atEnd)], [(18, 1, atEnd)], [(19, 1, atEnd)],
   [(20, 1, atEnd)], [(21, 1, atEnd)], [(22, 2, atEnd)], [(27, 2, atEnd)],
   [(39, 2, atEnd), (40, 2, atEnd)], [(23, 2, atEnd)], [(38, 2, atEnd)], [(41, 2, atEnd)],
   [(28, 1, afterColumns), (29, 1, afterColumns)], [(45, 1, atFrom)], [(46, 1, atFrom)],
   [(43, 2, atEnd), (44, 2, atEnd)], [(63, 2, atEnd)], [(66, 2, atEnd), (67, 2, atEnd)],
   [(68, 2, atEnd), (69, 2, atEnd)], [(77, 2, atEnd)], [(24, 2, atEnd)], [(26, 2, atEnd)],
   [(42, 2, atEnd)], [(25, 2, atEnd)], [], [(2, 2, anything)], [(22, 3, atEnd)], [(27, 3, atEnd)],
   [(39, 3, atEnd), (40, 3, atEnd)], [(23, 3, atEnd)], [(38, 3, atEnd)], [(41, 3, atEnd)],
   [(28, 0, afterColumns), (28, 2, afterColumns), (29, 0, afterColumns)],
   [(43, 3, atEnd), (44, 3, atEnd)], [(63, 3, atEnd)], [(66, 3, atEnd), (67, 3, atEnd)],
   [(68, 3, atEnd), (69, 3, atEnd), (70, 0, afterSet), (71, 0, afterSet), (72, 0, inSet)],
   [(27, 4, atEnd), (30, 0, atClose), (31, 0, atClose), (32, 0, atClose), (33, 0, inList),
    (34, 0, inList)], [(39, 4, atEnd), (40, 4, atEnd)], [(28, 3, afterColumns)],
   [(43, 4, atEnd), (44, 4, atEnd)], [(63, 4, atEnd)],
   [(47, 0, inWhere), (48, 0, inWhere), (51, 0, inWhere), (67, 4, atEnd)], [(72, 1, inSet)],
   [(68, 4, atEnd), (69, 4, atEnd)], [(70, 1, afterSet), (71, 1, afterSet)], [(32, 1, atClose)],
   [(33, 1, inList), (34, 1, inList), (35, 0, atType), (36, 0, atType), (37, 0, atType)],
   [(27, 5, atEnd)], [(30, 1, atClose), (31, 1, atClose)], [(39, 5, atEnd), (40, 5, atEnd)],
   [(44, 5, atEnd), (47, 0, inWhere), (48, 0, inWhere), (51, 0, inWhere)],
   [(52, 0, inList), (53, 0, inList), (54, 0, inList), (63, 5, atEnd), (64, 0, atClose),
    (65, 0, atClose)],
   [(51, 1, inWhere), (55, 0, atValue), (56, 0, atValue), (57, 0, atValue), (58, 0, atValue),
    (59, 0, atValue), (60, 0, atValue), (61, 0, atValue), (62, 0, atValue)],
   [(47, 1, inWhere), (49, 0, atName), (50, 0, atName), (67, 5, atEnd)], [(48, 1, inWhere)],
   [(52, 0, inSet), (53, 0, inSet), (54, 0, inSet), (72, 2, inSet)],
   [(47, 0, inWhere), (48, 0, inWhere), (51, 0, inWhere), (69, 5, atEnd)],
   [(70, 0, afterSet), (70, 2, afterSet), (71, 0, afterSet), (72, 0, inSet)], [(32, 2, atClose)],
   [(37, 1, atType)], [(35, 1, atType)], [(36, 1, atType)], [(33, 2, inList), (34, 2, inList)],
   [(27, 6, atEnd)],
   [(30, 0, atClose), (30, 2, atClose), (31, 0, atClose), (32, 0, atClose), (33, 0, inList),
    (34, 0, inList)], [(28, 0, atClose), (29, 0, atClose), (39, 6, atEnd), (40, 6, atEnd)],
   [(44, 6, atEnd), (47, 1, inWhere), (49, 0, atName), (50, 0, atName)], [(54, 1, afterValue)],
   [(52, 1, afterValue)], [(53, 1, afterValue)], [(64, 1, atClose), (65, 1, atClose)],
   [(63, 6, atEnd)], [(62, 1, atValue)], [(61, 1, atValue)], [(55, 1, atValue)],
   [(56, 1, atValue)], [(57, 1, atValue)], [(58, 1, atValue)], [(59, 1, atValue)],
   [(60, 1, atValue)], [(51, 2, inWhere), (52, 0, inWhere), (53, 0, inWhere), (54, 0, inWhere)],
   [(49, 1, atName)], [(50, 1, atName)], [(47, 2, inWhere), (51, 0, inWhere)], [(72, 3, inSet)],
   [(47, 1, inWhere), (49, 0, atName), (50, 0, atName), (69, 6, atEnd)], [(70, 3, afterSet)],
   [(28, 0, atClose), (29, 0, atClose), (32, 3, atClose)], [(37, 2, atType)], [(33, 3, inList)],
   [(30, 3, atClose)], [(39, 7, atEnd), (40, 7, atEnd)],
   [(52, 0, inList), (53, 0, inList), (54, 0, inList), (64, 0, atClose), (64, 2, atClose),
    (65, 0, atClose)], [(63, 7, atEnd)], [(51, 3, inWhere)], [(47, 3, inWhere)],
   [(32, 4, atClose)], [(37, 3, atType)], [(39, 8, atEnd), (40, 8, atEnd)], [(64, 3, atClose)],
   [(32, 5, atClose)], [(37, 4, atType)], [(40, 9, atEnd)], [(40, 10, atEnd)]]

theorem mem_anything (next : Option Token) : next ∈ anything := by
  cases next with
  | none => exact List.mem_cons_self
  | some a => exact List.mem_cons_of_mem _ (List.mem_map_of_mem (Token.mem_all a))

/-- The number of a rule, or of that of the whole input. -/
def number : Option (Fin rules.length) → ℕ
  | none => 1
  | some r => r + 2

/-- The right side of a rule, by its number. -/
def rhsOf (yyn : ℕ) : List (Token ⊕ Nonterminal) :=
  if yyn = 1 then [.inr .start] else ((rules[yyn - 2]?).map Rule.rhs).getD []

theorem rhsOf_number (ρ : Option (Fin rules.length)) :
    rhsOf (number ρ) = rhs grammar .start ρ := by
  cases ρ with
  | none => rfl
  | some r =>
    have hne : number (some r) ≠ 1 := by simp only [number]; omega
    have hget : rules[number (some r) - 2]? = some (grammar r) := by
      simp only [number, Nat.add_sub_cancel, grammar]
      exact List.getElem?_eq_getElem r.isLt
    simp only [rhsOf, hne, if_false, hget, Option.map_some, Option.getD_some, rhs]

/-- Whether a state has an item. -/
def hasItem (q yyn i : ℕ) (after : Option Token) : Bool :=
  (items.getD q []).any (fun e => e.1 = yyn ∧ e.2.1 = i ∧ after ∈ e.2.2)

/-- An item of a state. -/
def Item (q : ℕ) (ρ : Option (Fin rules.length)) (i : ℕ) (after : Option Token) : Prop :=
  hasItem q (number ρ) i after

theorem item_iff {q : ℕ} {ρ : Option (Fin rules.length)} {i : ℕ} {after : Option Token} :
    Item q ρ i after ↔ ∃ L, (number ρ, i, L) ∈ items.getD q [] ∧ after ∈ L := by
  unfold Item hasItem
  rw [List.any_eq_true]
  constructor
  · rintro ⟨⟨n, j, L⟩, hmem, h⟩
    obtain ⟨rfl, rfl, hafter⟩ := of_decide_eq_true h
    exact ⟨L, hmem, hafter⟩
  · rintro ⟨L, hmem, hafter⟩
    exact ⟨_, hmem, decide_eq_true ⟨rfl, rfl, hafter⟩⟩

theorem lt_of_mem_items {q : ℕ} {e : ℕ × ℕ × List (Option Token)} (h : e ∈ items.getD q []) :
    q < items.length := by
  by_contra hq
  rw [List.getD_eq_getElem?_getD, List.getElem?_eq_none (Nat.le_of_not_lt hq)] at h
  cases h

/-! ## Forwards -/

/-- The tokens that a symbol begins with, down to some depth of rules. -/
def first : ℕ → Token ⊕ Nonterminal → List Token
  | _, .inl a => [a]
  | 0, .inr _ => []
  | depth + 1, .inr N =>
    (rules.filter (fun r => r.lhs = N)).flatMap (fun r =>
      match r.rhs with
      | [] => []
      | X :: _ => first depth X)

/-- The depth of the rules that go on with the symbol they begin with. -/
def firstDepth : ℕ := 5

/-- What may come next before some symbols and one of what comes after them. -/
def nexts (after : List (Option Token)) : List (Token ⊕ Nonterminal) → List (Option Token)
  | [] => after
  | X :: _ => (first firstDepth X).map some

/-- Whether the items that follow from one are there, and the table does what it says. -/
def follows (q : ℕ) (e : ℕ × ℕ × List (Option Token)) : Bool :=
  match (rhsOf e.1).drop e.2.1 with
  | [] =>
    if e.1 = 1 then
      yydecision q 0 = .accept ∧ ∀ a ∈ Token.all, yydecision q (yytoken a.code) = .error
    else ∀ after ∈ e.2.2, yydecision q (nextToken after) = .reduce e.1
  | .inl a :: _ =>
    match yydecision q (yytoken a.code) with
    | .shift q' => ∀ after ∈ e.2.2, hasItem q' e.1 (e.2.1 + 1) after
    | _ => false
  | .inr B :: β =>
    (∀ after ∈ e.2.2, hasItem (yygoto q B.symbol) e.1 (e.2.1 + 1) after) ∧
      ∀ r : Fin rules.length, (grammar r).lhs = B →
        ∀ next ∈ nexts e.2.2 β, hasItem q (r + 2) 0 next

theorem items_follow : ∀ q < items.length, ∀ e ∈ items.getD q [], follows q e := by
  decide +kernel

theorem first_closed : ∀ r : Fin rules.length, ∀ X ∈ (grammar r).rhs.head?,
    ∀ a ∈ first firstDepth X, a ∈ first firstDepth (.inr (grammar r).lhs) := by
  decide +kernel

/-- The depth is enough. -/
theorem mem_first {X : Token ⊕ Nonterminal} {a : Token} (h : Starts grammar X a) :
    a ∈ first firstDepth X := by
  induction h with
  | token a => exact List.mem_singleton_self a
  | @rule r X β a hrhs _ ih =>
    have hhead : X ∈ (grammar r).rhs.head? := by rw [hrhs]; rfl
    exact first_closed r X hhead a ih

theorem mem_nexts {β : List (Token ⊕ Nonterminal)} {after next : Option Token}
    {L : List (Option Token)} (hafter : after ∈ L) (h : Next grammar β after next) :
    next ∈ nexts L β := by
  cases β with
  | nil =>
    cases h
    exact hafter
  | cons X β =>
    obtain ⟨a, rfl, hstarts⟩ := h
    exact List.mem_map_of_mem (mem_first hstarts)

/-- What an item says, with what is still to be read of its rule. -/
theorem follows_of_item {q i : ℕ} {ρ : Option (Fin rules.length)} {after : Option Token}
    (h : Item q ρ i after) : ∃ L, after ∈ L ∧ follows q (number ρ, i, L) := by
  obtain ⟨L, hmem, hafter⟩ := item_iff.mp h
  exact ⟨L, hafter, items_follow q (lt_of_mem_items hmem) _ hmem⟩

theorem drop_rhsOf {ρ : Option (Fin rules.length)} {α β : List (Token ⊕ Nonterminal)}
    (h : rhs grammar .start ρ = α ++ β) : (rhsOf (number ρ)).drop α.length = β := by
  rw [rhsOf_number, h, List.drop_left]

/-- The input has been read. -/
theorem at_end {q : ℕ} {after : Option Token} (h : Item q none 1 after) :
    yydecision q 0 = .accept ∧ ∀ a ∈ Token.all, yydecision q (yytoken a.code) = .error := by
  obtain ⟨L, hafter, hfollows⟩ := follows_of_item h
  have hdrop : (rhsOf (number none)).drop 1 = [] := rfl
  unfold follows at hfollows
  simp only [hdrop] at hfollows
  exact of_decide_eq_true hfollows

theorem number_some_ne_one (r : Fin rules.length) : number (some r) ≠ 1 := by
  simp only [number]
  omega

theorem action_reduce (r : Fin rules.length) :
    (Decision.reduce (number (some r))).action = .reduce r := by
  simp only [Decision.action, number, Nat.add_sub_cancel, r.isLt, dite_true]

/-- **The tables follow the items forwards.** -/
theorem forward : automaton.Forward grammar .start Item where
  start after := by
    exact item_iff.mpr ⟨anything, List.mem_cons_self, mem_anything after⟩
  token h hrhs := by
    obtain ⟨L, hafter, hfollows⟩ := follows_of_item h
    unfold follows at hfollows
    simp only [drop_rhsOf hrhs] at hfollows
    split at hfollows
    · rename_i q' hdecision
      refine ⟨q', ?_, of_decide_eq_true hfollows _ hafter⟩
      simp only [automaton, nextToken, Option.map_some, Option.getD_some, hdecision,
        Decision.action]
    · cases hfollows
  goto h hrhs := by
    obtain ⟨L, hafter, hfollows⟩ := follows_of_item h
    unfold follows at hfollows
    simp only [drop_rhsOf hrhs] at hfollows
    exact (of_decide_eq_true hfollows).1 _ hafter
  closure h hrhs hnext := by
    obtain ⟨L, hafter, hfollows⟩ := follows_of_item h
    unfold follows at hfollows
    simp only [drop_rhsOf hrhs] at hfollows
    exact (of_decide_eq_true hfollows).2 _ rfl _ (mem_nexts hafter hnext)
  reduce {q r after} h := by
    obtain ⟨L, hafter, hfollows⟩ := follows_of_item h
    have hrhs : rhs grammar .start (some r) = (grammar r).rhs ++ [] := (List.append_nil _).symm
    unfold follows at hfollows
    simp only [drop_rhsOf hrhs, number_some_ne_one, if_false] at hfollows
    have hdecision := of_decide_eq_true hfollows _ hafter
    simp only [automaton, hdecision, action_reduce]
  accept h := by
    simp only [automaton, nextToken, Option.map_none, Option.getD_none, (at_end h).1,
      Decision.action]
  stop {q a} h := by
    simp only [automaton, nextToken, Option.map_some, Option.getD_some,
      (at_end h).2 a (Token.mem_all a), Decision.action]

/-! ## Backwards -/

/-- Whether every item of a state, in which something has been read, comes from one of
the state below, with the symbol between them. -/
def comesFrom (q : ℕ) (X : Token ⊕ Nonterminal) (q' : ℕ) : Bool :=
  q' ≠ 0 ∧ (∃ e ∈ items.getD q' [], e.2.2 ≠ []) ∧
    ∀ e ∈ items.getD q' [], e.2.1 = 0 ∨
      (rhsOf e.1)[e.2.1 - 1]? = some X ∧
        ∃ e' ∈ items.getD q [], e'.1 = e.1 ∧ e'.2.1 + 1 = e.2.1 ∧ e'.2.2 ≠ []

/-- Whether the decisions of a state with an item go with the items. -/
def precedes (q : ℕ) (a : Option Token) : Bool :=
  match yydecision q (nextToken a) with
  | .shift q' => a.any (fun a => comesFrom q (.inl a) q')
  | .reduce yyn =>
    2 ≤ yyn ∧ yyn - 2 < rules.length ∧
      ∃ e ∈ items.getD q [], e.1 = yyn ∧ e.2.1 = (rhsOf yyn).length ∧ e.2.2 ≠ []
  | .accept => a = none ∧ ∃ e ∈ items.getD q [], e.1 = 1 ∧ e.2.1 = 1 ∧ e.2.2 ≠ []
  | .error => true

theorem items_precede : ∀ q < items.length, items.getD q [] ≠ [] → ∀ a ∈ anything,
    precedes q a := by
  decide +kernel

theorem gotos_come : ∀ q < items.length, ∀ e ∈ items.getD q [], e.2.1 = 0 → e.1 ≠ 1 →
    ∀ r ∈ rules[e.1 - 2]?, comesFrom q (.inr r.lhs) (yygoto q r.lhs.symbol) := by
  decide +kernel

theorem items_start : (∀ e ∈ items.getD 0 [], e.2.1 = 0) ∧
    ∀ q < items.length, ∀ e ∈ items.getD q [], e.1 = 1 ∧ e.2.1 = 0 → q = 0 := by
  decide +kernel

theorem items_number : ∀ q < items.length, ∀ e ∈ items.getD q [],
    e.1 = 1 ∨ 2 ≤ e.1 ∧ e.1 - 2 < rules.length := by
  decide +kernel

/-- An entry with something that may come after it is an item. -/
theorem exists_item_of_mem {q : ℕ} {e : ℕ × ℕ × List (Option Token)}
    (h : e ∈ items.getD q []) (hne : e.2.2 ≠ []) :
    ∃ ρ after, number ρ = e.1 ∧ Item q ρ e.2.1 after := by
  obtain ⟨after, L, hL⟩ := List.exists_cons_of_ne_nil hne
  have hafter : after ∈ e.2.2 := by rw [hL]; exact List.mem_cons_self
  obtain ⟨ρ, hρ⟩ : ∃ ρ, number ρ = e.1 := by
    rcases items_number q (lt_of_mem_items h) e h with hone | ⟨htwo, hlt⟩
    · exact ⟨none, hone.symm⟩
    · exact ⟨some ⟨e.1 - 2, hlt⟩, Nat.sub_add_cancel htwo⟩
  refine ⟨ρ, after, hρ, item_iff.mpr ⟨e.2.2, ?_, hafter⟩⟩
  rw [hρ]
  exact h

theorem number_injective {ρ ρ' : Option (Fin rules.length)} (h : number ρ = number ρ') :
    ρ = ρ' := by
  cases ρ with
  | none =>
    cases ρ' with
    | none => rfl
    | some r => exact (number_some_ne_one r h.symm).elim
  | some r =>
    cases ρ' with
    | none => exact (number_some_ne_one r h).elim
    | some r' => exact congrArg some (Fin.ext (Nat.add_right_cancel h))

theorem comesFrom_spec {q q' : ℕ} {X : Token ⊕ Nonterminal} (h : comesFrom q X q') :
    q' ≠ automaton.start ∧ (∃ ρ i after, Item q' ρ i after) ∧
      ∀ ρ i after, Item q' ρ (i + 1) after →
        (rhs grammar .start ρ)[i]? = some X ∧ ∃ after, Item q ρ i after := by
  obtain ⟨hstart, ⟨e, he, hne⟩, hread⟩ := of_decide_eq_true h
  refine ⟨hstart, ?_, fun ρ i after hitem => ?_⟩
  · obtain ⟨ρ, after, -, hitem⟩ := exists_item_of_mem he hne
    exact ⟨ρ, e.2.1, after, hitem⟩
  · obtain ⟨L, hmem, -⟩ := item_iff.mp hitem
    rcases hread _ hmem with hzero | ⟨hX, e', he', hrule, hplace, hne'⟩
    · cases hzero
    · obtain ⟨ρ', after', hnumber, hitem'⟩ := exists_item_of_mem he' hne'
      cases number_injective (hnumber.trans hrule)
      cases Nat.succ.inj hplace
      exact ⟨by rwa [rhsOf_number] at hX, after', hitem'⟩

theorem precedes_of_item {q i : ℕ} {ρ : Option (Fin rules.length)} {after : Option Token}
    (h : Item q ρ i after) (next : Option Token) : precedes q next := by
  obtain ⟨L, hmem, -⟩ := item_iff.mp h
  exact items_precede q (lt_of_mem_items hmem) (List.ne_nil_of_mem hmem) next (mem_anything next)

/-- **The tables follow the items backwards.** -/
theorem backward : automaton.Backward grammar .start Item where
  start := ⟨none, forward.start none⟩
  fresh h := by
    obtain ⟨L, hmem, -⟩ := item_iff.mp h
    exact Nat.succ_ne_zero _ (items_start.1 _ hmem)
  begins h := by
    obtain ⟨L, hmem, -⟩ := item_iff.mp h
    exact items_start.2 _ (lt_of_mem_items hmem) _ hmem ⟨rfl, rfl⟩
  shift {q q' ρ i a after} h haction := by
    have hprecedes := precedes_of_item h (some a)
    unfold precedes at hprecedes
    rw [action_eq_shift haction] at hprecedes
    exact comesFrom_spec hprecedes
  goto {q r after} h := by
    obtain ⟨L, hmem, -⟩ := item_iff.mp h
    have hrule : rules[number (some r) - 2]? = some (grammar r) := List.getElem?_eq_getElem r.isLt
    exact comesFrom_spec
      (gotos_come q (lt_of_mem_items hmem) _ hmem rfl (number_some_ne_one r) _ hrule)
  reduce {q ρ r i after next} h haction := by
    have hprecedes := precedes_of_item h next
    unfold precedes at hprecedes
    obtain ⟨yyn, hyyn, hdecision⟩ := action_eq_reduce haction
    rw [hdecision] at hprecedes
    obtain ⟨htwo, -, e, he, hrule, hplace, hne⟩ := of_decide_eq_true hprecedes
    obtain ⟨ρ', after', hnumber, hitem⟩ := exists_item_of_mem he hne
    have hr : number (some r) = yyn := by
      simp only [number]
      omega
    cases number_injective (hnumber.trans (hrule.trans hr.symm))
    rw [hplace, ← hr, rhsOf_number] at hitem
    exact ⟨after', hitem⟩
  accept {q ρ i after next} h haction := by
    have hprecedes := precedes_of_item h next
    unfold precedes at hprecedes
    rw [action_eq_accept haction] at hprecedes
    obtain ⟨hnext, e, he, hrule, hplace, hne⟩ := of_decide_eq_true hprecedes
    obtain ⟨ρ', after', hnumber, hitem⟩ := exists_item_of_mem he hne
    have hone : number none = 1 := rfl
    cases number_injective (hnumber.trans (hrule.trans hone.symm))
    rw [hplace] at hitem
    exact ⟨hnext, after', hitem⟩

end MiniSql.Parser
