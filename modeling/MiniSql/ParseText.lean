import MiniSql.CommandGrammar
import MiniSql.LexemeText

/-!
# From the text to the tree

What `main` does with a buffer: `yy_scan_string` and `yyparse`. On any text, the parser
gets the longest matches of the scanner, and returns what it returns on these
(`parseBuffer_command`). A command that is written down, with whatever blanks, is read as
this command (`parse_written`).
-/

namespace MiniSql.Parser

open MaximalMunch Command

/-- `yy_scan_string` and `yyparse` on a buffer, in so many rounds of their loops at most. -/
def parseBuffer (rounds : ℕ) (yylval : SyntaxNode) (buffer : List UInt8) :
    Option (ParserState × ℕ) := do
  let input ← yyscan rounds (yyScanString buffer)
  yyparse rounds yylval input

variable {rounds : ℕ} {yylval : SyntaxNode} {buffer text : List UInt8} {c : Command} {L : Layout}

/-- There are no more matches than characters. -/
theorem length_found_le {found : List (ℕ × StdString)}
    (h : Scans CharClass.has patterns text found) : found.length ≤ text.length := by
  induction h with
  | nil => exact le_rfl
  | @cons u rest i found hu _ _ ih =>
    have hpos : 0 < u.length := List.length_pos_iff.mpr hu
    rw [List.length_cons, List.length_append]
    omega

theorem lt_enoughRounds (n : ℕ) : n < enoughRounds n := by
  unfold enoughRounds
  omega

theorem enoughRounds_mono {n m : ℕ} (h : n ≤ m) : enoughRounds n ≤ enoughRounds m := by
  unfold enoughRounds
  omega

/-- What is parsed is what is scanned. -/
theorem parseBuffer_eq {input : List Scanned} (hlength : input.length ≤ (yyScanString buffer).length)
    (hscan : ∀ rounds, (yyScanString buffer).length < rounds →
      yyscan rounds (yyScanString buffer) = some input)
    (hrounds : enoughRounds (yyScanString buffer).length ≤ rounds) :
    enoughRounds input.length ≤ rounds ∧
      parseBuffer rounds yylval buffer = yyparse rounds yylval input := by
  refine ⟨(enoughRounds_mono hlength).trans hrounds, ?_⟩
  unfold parseBuffer
  rw [hscan rounds ((lt_enoughRounds _).trans_le hrounds)]
  rfl

/-- **Every text is read.** Its longest matches are the input of `yyparse`, which returns,
and returns 0 if their tokens are a command that finds place on the stack. The root is the
tree of such a command that they begin with, whatever comes behind it and whatever is
returned, and null if there is none. The memory is exhausted by every command that finds no
place, and by no text of fewer tokens than places. The error is set if anything but 0 is
returned, and where a character begins no token. -/
theorem parseBuffer_command (yylval : SyntaxNode) (buffer : List UInt8) :
    ∃ found input s yyresult, Scans CharClass.has patterns (yyScanString buffer) found ∧
      input = found.filterMap finds ∧
      (∀ rounds, enoughRounds (yyScanString buffer).length ≤ rounds →
        parseBuffer rounds yylval buffer = some (s, yyresult)) ∧
      (yyresult = 0 ↔ ∃ c, lexemes input = phrase.lexemes c ∧ phrase.places c ≤ places) ∧
      (∀ c rest, lexemes input = phrase.lexemes c ++ rest → phrase.places c ≤ places →
        s.root = c.node) ∧
      (s.root = .null ∨ ∃ c rest, lexemes input = phrase.lexemes c ++ rest ∧
        phrase.places c ≤ places ∧ s.root = c.node) ∧
      (yyresult = 2 → places < (lexemes input).length) ∧
      (∀ c, lexemes input = phrase.lexemes c → places < phrase.places c → yyresult = 2) ∧
      yyresult ≤ 2 ∧ (s.error = none ↔ yyresult = 0 ∧ ∀ x ∈ input, x.lexeme.isSome) := by
  obtain ⟨found, hscans, hruns⟩ := yyscan_scans (noZero_yyScanString buffer)
  obtain ⟨s, yyresult, hparse, hrest⟩ := yyparse_command yylval (found.filterMap finds)
  refine ⟨found, _, s, yyresult, hscans, rfl, fun rounds hrounds => ?_, hrest⟩
  obtain ⟨henough, heq⟩ : _ ∧ parseBuffer rounds yylval buffer = _ := parseBuffer_eq
    ((List.length_filterMap_le _ _).trans (length_found_le hscans)) hruns hrounds
  rw [heq]
  exact hparse rounds henough

/-! ## Commands that are written down -/

/-- A command in a buffer, with whatever blanks, is read as the command. -/
theorem parseBuffer_layout (yylval : SyntaxNode) (hL : L.lexemes = phrase.lexemes c)
    (hplaces : phrase.places c ≤ places) (hbuffer : yyScanString buffer = L.text) :
    ∃ s, (∀ rounds, enoughRounds L.text.length ≤ rounds →
        parseBuffer rounds yylval buffer = some (s, 0)) ∧ s.root = c.node ∧ s.error = none := by
  have hlexemes : lexemes (L.lexemes.map .token) = phrase.lexemes c := by
    rw [← hL]
    unfold lexemes
    rw [List.filterMap_map]
    exact List.filterMap_some
  have hlength : (L.lexemes.map Scanned.token).length ≤ L.text.length := by
    obtain ⟨found, hscans, heq⟩ := Layout.scans_textOf L.written L.blank L.apart L.blank_last
    have hmap : L.lexemes.map Scanned.token = L.pieces.map (fun x => .token x.2) := List.map_map
    rw [hmap, ← heq]
    exact (List.length_filterMap_le _ _).trans (length_found_le hscans)
  obtain ⟨s, yyresult, hparse, hzero, hroot, -, -, -, -, herror⟩ :=
    yyparse_command yylval (L.lexemes.map .token)
  have hresult : yyresult = 0 := hzero.mpr ⟨c, hlexemes, hplaces⟩
  refine ⟨s, fun rounds hrounds => ?_, ?_, ?_⟩
  · rw [← hbuffer] at hlength hrounds
    obtain ⟨henough, heq⟩ : _ ∧ parseBuffer rounds yylval buffer = _ := parseBuffer_eq hlength
      (fun rounds h => by rw [hbuffer] at h ⊢; exact L.yyscan_text h) hrounds
    rw [heq, hparse rounds henough, hresult]
  · exact hroot c [] (by rw [hlexemes, List.append_nil]) hplaces
  · refine herror.mpr ⟨hresult, fun x hx => ?_⟩
    obtain ⟨l, -, rfl⟩ := List.mem_map.mp hx
    rfl

/-- Lexemes with one blank before each of them. -/
def Layout.spaced (ls : List Lexeme) (h : ∀ l ∈ ls, l.Written) : Layout where
  pieces := ls.map (fun l => ([32], l))
  last := []
  written := by
    intro x hx
    obtain ⟨l, hl, rfl⟩ := List.mem_map.mp hx
    exact h l hl
  blank := by
    intro x hx
    obtain ⟨l, -, rfl⟩ := List.mem_map.mp hx
    intro c hc
    cases List.mem_singleton.mp hc
    rfl
  apart := by
    rw [List.isChain_map]
    exact (List.pairwise_of_forall (fun _ _ h => by cases h)).isChain
  blank_last := isBlank_nil

/-- **What is written is read.** A command whose names, strings and numbers are lexemes can
be written down, and however it is laid out, the parser returns 0 on it, without an error,
and with the tree of the command. -/
theorem parse_written (hwritten : ∀ l ∈ phrase.lexemes c, l.Written)
    (hplaces : phrase.places c ≤ places) (yylval : SyntaxNode) :
    (∃ L : Layout, L.lexemes = phrase.lexemes c) ∧
      ∀ (L : Layout) (rest : List UInt8), L.lexemes = phrase.lexemes c →
        ∃ s, (∀ rounds, enoughRounds L.text.length ≤ rounds →
          parseBuffer rounds yylval (L.text ++ 0 :: rest) = some (s, 0)) ∧
            s.root = c.node ∧ s.error = none := by
  constructor
  · refine ⟨.spaced _ hwritten, ?_⟩
    exact List.map_map.trans (List.map_id _)
  · intro L rest hL
    exact parseBuffer_layout yylval hL hplaces
      (yyScanString_append (Layout.noZero_textOf L.written L.blank L.blank_last) rest)

/-- `select * from t where a = 1` -/
def selectOne : Command := .select none [116] (some (.one ⟨[97], .equal, .number [49]⟩))

/-- Its texts are lexemes, and it finds place. -/
theorem parse_written_selectOne :
    (∃ L : Layout, L.lexemes = phrase.lexemes selectOne) ∧
      ∀ (L : Layout) (rest : List UInt8), L.lexemes = phrase.lexemes selectOne →
        ∃ s, (∀ rounds, enoughRounds L.text.length ≤ rounds →
          parseBuffer rounds .null (L.text ++ 0 :: rest) = some (s, 0)) ∧
            s.root = selectOne.node ∧ s.error = none := by
  have hname (n : UInt8) (hn : CharClass.letter.has n) (h : ∀ t ∈ Token.all, t.spelling ≠ some [n]) :
      (Lexeme.identifier [n]).Written :=
    written_identifier_iff.mpr ⟨hn, (by intro a ha; cases ha), fun t => h t t.mem_all⟩
  have hone : (Lexeme.number [49]).Written := ⟨by decide, by decide, by decide +kernel⟩
  refine parse_written ?_ (by decide) .null
  intro l hl
  change l ∈ [Lexeme.fixed .SELECT, .fixed .asterisk, .fixed .FROM, .identifier [116],
    .fixed .WHERE, .identifier [97], .fixed .EQ, .number [49], .fixed .semicolon] at hl
  simp only [List.mem_cons, List.not_mem_nil, or_false] at hl
  rcases hl with rfl | rfl | rfl | rfl | rfl | rfl | rfl | rfl | rfl
  · exact written_fixed rfl
  · exact written_fixed rfl
  · exact written_fixed rfl
  · exact hname 116 rfl (by decide +kernel)
  · exact written_fixed rfl
  · exact hname 97 rfl (by decide +kernel)
  · exact written_fixed rfl
  · exact hone
  · exact written_fixed rfl

end MiniSql.Parser
