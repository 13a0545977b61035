import MiniSql.MinisqlLex
import MiniSql.MaximalMunch

/-!
# The rules of the scanner

The patterns of `minisql.l`. The tables of `minisql_lex.c` follow them: in every state that
a text can lead to, the rule that the state accepts is the first one that matches, and a
state that goes nowhere is the end of every match (`good_foldl`).

The states are gone through by the kernel (`explored`). For that the tables are read as
numbers in base 256 (`unpack_pack`), where an entry is found by one division.
-/

namespace MiniSql.Parser

open MaximalMunch

/-! ## The patterns -/

/-- The sets of characters that the rules name. -/
inductive CharClass
  | character (code : ℕ)
  | letter
  | digit
  | letterOrDigit
  | blank
  | notNewline
  | plain
deriving DecidableEq

namespace CharClass

/-- Is the character with this code in a set? -/
def hasCode (k : CharClass) (code : ℕ) : Bool :=
  let isLetter := (97 ≤ code && code ≤ 122) || (65 ≤ code && code ≤ 90) || code == 95
  let isDigit := 48 ≤ code && code ≤ 57
  match k with
  | character c => code == c
  | letter => isLetter
  | digit => isDigit
  | letterOrDigit => isLetter || isDigit
  | blank => code == 32 || code == 9 || code == 11 || code == 10 || code == 12
  | notNewline => code != 10
  | plain => code != 34 && code != 92

/-- Is a character in a set? -/
def has (k : CharClass) (c : UInt8) : Bool := k.hasCode c.toNat

end CharClass

/-- The characters of a text. -/
def literal (s : StdString) : Pattern CharClass :=
  .word (s.map (fun c => .character c.toNat)) .empty

/-- A string: quotes around anything, where a quote or a backslash comes behind a
backslash. -/
def stringPattern : Pattern CharClass :=
  .word [.character 34]
    (.seq (.star (.alt (.word [.character 92, .notNewline] .empty) (.one .plain)))
      (.one (.character 34)))

/-- A letter, and letters and digits. -/
def identifierPattern : Pattern CharClass := .seq (.one .letter) (.star (.one .letterOrDigit))

/-- An optional minus and any number of digits, before another pattern. -/
def signedPattern (p : Pattern CharClass) : Pattern CharClass :=
  .seq (.alt (.one (.character 45)) .empty) (.seq (.star (.one .digit)) p)

/-- A number with a point, and digits behind it. -/
def floatPattern : Pattern CharClass :=
  signedPattern (.word [.character 46, .digit] (.star (.one .digit)))

/-- A number without a point; it need not have a digit. -/
def integerPattern : Pattern CharClass := signedPattern .empty

/-- The rules of `minisql.l`. -/
def patterns : List (Pattern CharClass) :=
  stringPattern ::
    ([Token.CREATE, .DROP, .SELECT, .INSERT, .DELETE, .UPDATE, .TRXBEGIN, .TRXCOMMIT, .TRXROLLBACK,
      .QUIT, .EXECFILE, .SHOW, .USE, .USING, .DATABASE, .DATABASES, .TABLE, .TABLES, .INDEX,
      .INDEXES, .ON, .FROM, .WHERE, .INTO, .SET, .VALUES, .PRIMARY, .KEY, .UNIQUE, .CHAR, .INT,
      .FLOAT, .AND, .OR, .NOT, .IS, .FLAGNULL].map (fun t => literal (t.spelling.getD [])) ++
    [identifierPattern, floatPattern, integerPattern] ++
    [Token.EQ, .NE, .LE, .GE, .comma, .asterisk, .semicolon, .apostrophe, .lessThan, .greaterThan,
      .leftParenthesis, .rightParenthesis].map (fun t => literal (t.spelling.getD [])) ++
    [.one .blank, .one .notNewline])

/-! ## Tables as numbers -/

/-- The entries of a table as the digits of a number. -/
def pack (table : List ℕ) : ℕ := table.foldr (fun x n => 256 * n + x) 0

/-- A digit of a number. -/
def unpack (n i : ℕ) : ℕ := Nat.mod (Nat.shiftRight n (Nat.mul 8 i)) 256

theorem unpack_pack {table : List ℕ} (h : ∀ x ∈ table, x < 256) (i : ℕ) :
    unpack (pack table) i = table.getD i 0 := by
  have hunpack (n i : ℕ) : unpack n i = n / 256 ^ i % 256 := by
    change n >>> (8 * i) % 256 = _
    rw [Nat.shiftRight_eq_div_pow, Nat.pow_mul]
  rw [hunpack]
  induction table generalizing i with
  | nil => rw [pack, List.foldr_nil, Nat.zero_div, List.getD_nil]
  | cons x table ih =>
    obtain ⟨hx, h⟩ := List.forall_mem_cons.mp h
    have hcons : pack (x :: table) = 256 * pack table + x := rfl
    cases i with
    | zero =>
      rw [hcons, pow_zero, Nat.div_one, Nat.mul_add_mod, Nat.mod_eq_of_lt hx, List.getD_cons_zero]
    | succ i =>
      rw [hcons, pow_succ', ← Nat.div_div_eq_div_mul, Nat.mul_add_div (by decide),
        Nat.div_eq_of_lt hx, Nat.add_zero, List.getD_cons_succ, ih h]

/-- The loop along `yy_def`, in numbers. -/
def packedTransition : ℕ → ℕ → ℕ → Option ℕ
  | 0, _, _ => none
  | rounds + 1, state, c =>
    if unpack (pack yyChk) (unpack (pack yyBase) state + c) = state then
      some (unpack (pack yyNxt) (unpack (pack yyBase) state + c))
    else
      let state := unpack (pack yyDef) state
      packedTransition rounds state (if 175 ≤ state then unpack (pack yyMeta) c else c)

theorem packedTransition_eq (rounds state c : ℕ) :
    packedTransition rounds state c = yyTransition rounds state c := by
  have hbytes : ∀ table ∈ [yyChk, yyBase, yyNxt, yyDef, yyMeta], ∀ x ∈ table, x < 256 := by
    decide +kernel
  simp only [List.forall_mem_cons, List.not_mem_nil, false_implies, implies_true, and_true]
    at hbytes
  obtain ⟨hchk, hbase, hnxt, hdef, hmeta⟩ := hbytes
  induction rounds generalizing state c with
  | zero => rfl
  | succ rounds ih =>
    unfold packedTransition yyTransition
    simp only [unpack_pack hchk, unpack_pack hbase, unpack_pack hnxt, unpack_pack hdef,
      unpack_pack hmeta, ih]

/-! ## The states -/

/-- The state behind a character, if there is one. -/
def stateAfter (q : Option ℕ) (c : UInt8) : Option ℕ := q.bind (fun q => yyNext q c)

/-- The same, in numbers. -/
def packedAfter (q : Option ℕ) (c : UInt8) : Option ℕ :=
  q.bind (fun q => packedTransition 177 q (unpack (pack yyEc) c.toNat))

/-- One character of each class, in the order of the classes. -/
def letters : List UInt8 :=
  [64, 32, 10, 34, 39, 40, 41, 42, 44, 45, 46, 48, 59, 60, 61, 62, 106, 92, 97, 98, 99, 100, 101,
   102, 103, 104, 105, 107, 108, 109, 110, 111, 112, 113, 114, 115, 116, 117, 118, 119, 120, 121]

/-- The characters that are alone in their class. -/
def singles : List UInt8 := letters.filter (fun c => !([64, 32, 48, 106].contains c))

/-- Is a set of characters one that the classes distinguish? -/
def distinguished : CharClass → Bool
  | .character code => singles.any (fun c => c.toNat == code)
  | _ => true

/-- What is to hold of a state and of what is left of the rules there: it accepts the first
rule that matches, and goes on, also at the end of the text, unless nothing is left. -/
def agrees (q : Option ℕ) (items : Items CharClass) : Bool :=
  match q with
  | none => false
  | some q =>
    unpack (pack yyAccept) q == (items.accepted.map (· + 1)).getD 0 &&
      (if unpack (pack yyBase) q = 189 then items.all (fun x => x.2.heads.isEmpty)
        else packedTransition 177 q 0 == some 3) &&
      items.all (fun x => x.2.heads.all (fun y => distinguished y.1))

theorem agrees_some {q : ℕ} {items : Items CharClass} : agrees (some q) items ↔
    yyAccept.getD q 0 = (items.accepted.map (· + 1)).getD 0 ∧
      (if yyBase.getD q 0 = 189 then ∀ x ∈ items, x.2.heads = [] else yyTransition 177 q 0 = some 3) ∧
        ∀ x ∈ items, ∀ y ∈ x.2.heads, distinguished y.1 := by
  have haccept : ∀ x ∈ yyAccept, x < 256 := by decide +kernel
  have hbase : ∀ x ∈ yyBase, x < 256 := by decide +kernel
  unfold agrees
  simp only [Bool.and_eq_true, beq_iff_eq, List.all_eq_true, unpack_pack haccept,
    unpack_pack hbase, packedTransition_eq, and_assoc]
  refine and_congr_right fun _ => and_congr_left fun _ => ?_
  split
  · simp only [List.all_eq_true, List.isEmpty_iff]
  · exact beq_iff_eq

/-- What is left behind a text. -/
def itemsAfter (text : List UInt8) : Items CharClass :=
  text.foldl (Items.after CharClass.has) (.ofRules patterns)

/-- The states that others lead back to: the one that goes nowhere, and those within an
identifier, a number, its digits behind the point, and a string. -/
def knownStates : List (ℕ × List UInt8) :=
  [(48, [97, 97]), (43, [48, 48]), (44, [46, 48]), (39, [34, 97])]

/-- Is a state one of these? -/
def isKnown (q : Option ℕ) (items : Items CharClass) : Bool :=
  match q with
  | none => false
  | some q =>
    (q == 174 && items.isEmpty) ||
      knownStates.any (fun x => q == x.1 && items == itemsAfter x.2)

theorem explored :
    explore CharClass.has packedAfter agrees isKnown letters 11 (some 1) (itemsAfter []) := by
  decide +kernel

theorem explored_known : ∀ x ∈ (174, [32, 32]) :: knownStates,
    explore CharClass.has packedAfter agrees isKnown letters 11 (some x.1) (itemsAfter x.2) := by
  decide +kernel

theorem isKnown_explored (q : Option ℕ) (items : Items CharClass) (h : isKnown q items) :
    explore CharClass.has packedAfter agrees isKnown letters 11 q items := by
  obtain ⟨hjam, hknown⟩ := List.forall_mem_cons.mp explored_known
  cases q with
  | none => cases h
  | some q =>
    rcases (Bool.or_eq_true _ _).mp h with h | h
    · obtain ⟨hq, hitems⟩ := (Bool.and_eq_true _ _).mp h
      cases beq_iff_eq.mp hq
      have hnil : itemsAfter [32, 32] = [] := by decide +kernel
      rw [List.isEmpty_iff.mp hitems, ← hnil]
      exact hjam
    · obtain ⟨x, hx, h⟩ := List.any_eq_true.mp h
      obtain ⟨hq, hitems⟩ := (Bool.and_eq_true _ _).mp h
      cases beq_iff_eq.mp hq
      rw [beq_iff_eq.mp hitems]
      exact hknown x hx

/-- The letter of the class of a character. -/
def letterOf (code : ℕ) : UInt8 := letters.getD (unpack (pack yyEc) code - 1) 0

/-- The sets that the classes distinguish. -/
def sets : List CharClass :=
  [.letter, .digit, .letterOrDigit, .blank, .notNewline, .plain] ++
    singles.map (fun c => .character c.toNat)

theorem mem_sets {k : CharClass} (h : distinguished k) : k ∈ sets := by
  cases k with
  | character code =>
    obtain ⟨c, hc, hcode⟩ := List.any_eq_true.mp h
    cases beq_iff_eq.mp hcode
    exact List.mem_append_right _ (List.mem_map_of_mem hc)
  | _ => exact List.mem_append_left _ (by decide)

theorem letterOf_spec : ∀ code < 256, code ≠ 0 →
    letterOf code ∈ letters ∧
      unpack (pack yyEc) code = unpack (pack yyEc) (letterOf code).toNat ∧
      ∀ k ∈ sets, k.hasCode code = k.hasCode (letterOf code).toNat := by
  decide +kernel

theorem packedAfter_eq : packedAfter = stateAfter := by
  have hec : ∀ x ∈ yyEc, x < 256 := by decide +kernel
  funext q c
  unfold packedAfter stateAfter yyNext
  simp only [packedTransition_eq, unpack_pack hec]

/-- **The tables follow the rules**, behind every text. -/
theorem agrees_foldl {text : List UInt8} (h : ∀ c ∈ text, c ≠ 0) :
    agrees (text.foldl stateAfter (some 1)) (itemsAfter text) := by
  rw [← packedAfter_eq]
  refine explore_foldl explored
    (fun q items h => ⟨_, isKnown_explored q items h⟩) ?_ h
  intro c hc
  have hcode : c.toNat ≠ 0 := fun h => hc (UInt8.toNat_inj.mp h)
  obtain ⟨hmem, hclass, hsets⟩ := letterOf_spec c.toNat c.toNat_lt hcode
  refine ⟨_, hmem, fun q items hgood => ⟨?_, ?_⟩⟩
  · unfold packedAfter
    rw [hclass]
  · cases q with
    | none => cases hgood
    | some q =>
      obtain ⟨-, -, hdistinguished⟩ := agrees_some.mp hgood
      refine List.flatMap_congr (fun x hx => ?_)
      have hheads (y : CharClass × Pattern CharClass) (hy : y ∈ x.2.heads) :
          y.1.has c = y.1.has (letterOf c.toNat) :=
        hsets y.1 (mem_sets (hdistinguished x hx y hy))
      rw [List.filter_congr hheads]

end MiniSql.Parser
