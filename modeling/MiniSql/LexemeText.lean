import MiniSql.Yylex

/-!
# How lexemes are written

Lexemes one after the other, with blanks between them. There need not be a blank where
one of two lexemes is a mark or a string, or only one of them is a comparison
(`Side.touches`). The scanner finds the lexemes again (`Layout.yyscan_text`).
-/

namespace MiniSql.Parser

open MaximalMunch

/-! ## What may stand side by side -/

/-- Words run together with words, and comparisons with comparisons. -/
inductive Side
  | word
  | comparison
  | mark
deriving DecidableEq

/-- Does a token keep apart from one behind it? -/
def Side.touches (k k' : Side) : Bool := k ≠ k' || k = .mark

/-- What a token runs together with. -/
def Token.side : Token → Side
  | EQ => .comparison
  | NE => .comparison
  | LE => .comparison
  | GE => .comparison
  | lessThan => .comparison
  | greaterThan => .comparison
  | STRING => .mark
  | semicolon => .mark
  | leftParenthesis => .mark
  | rightParenthesis => .mark
  | comma => .mark
  | asterisk => .mark
  | apostrophe => .mark
  | _ => .word

/-- What a token that begins with a character runs together with. -/
def sideOf (code : ℕ) : Option Side :=
  if CharClass.letterOrDigit.hasCode code || code == 45 || code == 46 then some .word
  else if 60 ≤ code && code ≤ 62 then some .comparison
  else if [34, 39, 40, 41, 42, 44, 59].contains code then some .mark
  else none

/-- What is looked up for a state and a letter: the next state is not the first one, and
it goes nowhere if the state has accepted a token that the letter does not run together
with. -/
def keepsApart (q : ℕ) (c : UInt8) : Bool :=
  match packedAfter (some q) c with
  | none => false
  | some q' =>
    4 ≤ q' && q' ≤ 174 && (q' == 174 || q == 1 ||
      match ruleAction (unpack (pack yyAccept) q) with
      | some (.token t) => (sideOf c.toNat).any (fun k => !(t.side.touches k))
      | _ => true)

theorem keepsApart_all : ∀ q < 175, q = 1 ∨ 4 ≤ q → ∀ c ∈ letters, keepsApart q c := by
  decide +kernel

theorem sideOf_letterOf : ∀ code < 256, code ≠ 0 → sideOf (letterOf code).toNat = sideOf code := by
  decide +kernel

/-- A token begins with a character of its own side. -/
theorem sideOf_heads : ∀ i < 55, ∀ p ∈ patterns[i]?, ∀ y ∈ p.heads, ∀ c ∈ letters, y.1.has c →
    ∀ t ∈ Token.all, ruleAction (i + 1) = some (.token t) → sideOf c.toNat = some t.side := by
  decide +kernel

variable {t u v rest : List UInt8} {c : UInt8} {l : Lexeme}

theorem toNat_ne_zero (hc : c ≠ 0) : c.toNat ≠ 0 := fun h => hc (UInt8.toNat_inj.mp h)

/-- What the lookup says about a character. -/
theorem keepsApart_spec {q : ℕ} (hq : q < 175) (hstate : q = 1 ∨ 4 ≤ q) (hc : c ≠ 0) :
    ∃ q', yyNext q c = some q' ∧ 4 ≤ q' ∧ q' ≤ 174 ∧ (q' = 174 ∨ q = 1 ∨
      ∀ t, ruleAction (yyAccept.getD q 0) = some (.token t) →
        ∃ k ∈ sideOf c.toNat, t.side.touches k = false) := by
  obtain ⟨hmem, hclass, -⟩ := letterOf_spec c.toNat c.toNat_lt (toNat_ne_zero hc)
  have hall := keepsApart_all q hq hstate _ hmem
  have haccept : ∀ x ∈ yyAccept, x < 256 := by decide +kernel
  have hnext : packedAfter (some q) (letterOf c.toNat) = yyNext q c := by
    have hsame : packedAfter (some q) (letterOf c.toNat) = packedAfter (some q) c := by
      unfold packedAfter
      rw [hclass]
    rw [hsame, packedAfter_eq]
    rfl
  unfold keepsApart at hall
  rw [hnext, sideOf_letterOf c.toNat c.toNat_lt (toNat_ne_zero hc), unpack_pack haccept] at hall
  cases hq' : yyNext q c with
  | none =>
    rw [hq'] at hall
    cases hall
  | some q' =>
    simp only [hq', Bool.and_eq_true, Bool.or_eq_true, decide_eq_true_eq, beq_iff_eq] at hall
    obtain ⟨⟨hfour, hle⟩, hor⟩ := hall
    refine ⟨q', rfl, hfour, hle, ?_⟩
    rcases hor with (hjam | hone) | haction
    · exact .inl hjam
    · exact .inr (.inl hone)
    · refine .inr (.inr (fun t ht => ?_))
      rw [ht] at haction
      cases hk : sideOf c.toNat with
      | none =>
        rw [hk] at haction
        cases haction
      | some k =>
        rw [hk] at haction
        exact ⟨k, rfl, Bool.not_eq_true' _ ▸ haction⟩

/-- The state behind a text is one of the tables'. -/
theorem stateOf_bounds (h : NoZero t) (hne : t ≠ []) :
    ∃ q, stateOf t = some q ∧ 4 ≤ q ∧ q ≤ 174 := by
  induction t using List.reverseRecOn with
  | nil => exact absurd rfl hne
  | append_singleton t c ih =>
    have ht : NoZero t := fun a ha => h a (List.mem_append_left _ ha)
    have hc : c ≠ 0 := h c (List.mem_append_right _ (List.mem_singleton_self c))
    have hq : ∃ q, stateOf t = some q ∧ q < 175 ∧ (q = 1 ∨ 4 ≤ q) := by
      by_cases hnil : t = []
      · cases hnil
        exact ⟨1, rfl, by decide, .inl rfl⟩
      · obtain ⟨q, hq, hfour, hle⟩ := ih ht hnil
        exact ⟨q, hq, Nat.lt_succ_of_le hle, .inr hfour⟩
    obtain ⟨q, hq, hlt, hstate⟩ := hq
    obtain ⟨q', hnext, hfour, hle, -⟩ := keepsApart_spec hlt hstate hc
    rw [stateOf_concat, hq]
    exact ⟨q', hnext, hfour, hle⟩

/-! ## One lexeme -/

/-- A lexeme whose text the rules take for it. -/
structure Lexeme.Written (l : Lexeme) : Prop where
  ne_nil : l.yytext ≠ []
  noZero : NoZero l.yytext
  action : ruleAction (acceptedBy l.yytext) = some (.token l.token)

/-- The rule that takes a lexeme. -/
theorem Lexeme.Written.acceptedBy_eq (h : l.Written) :
    acceptedBy l.yytext = acceptedBy l.yytext - 1 + 1 := by
  have hpos : acceptedBy l.yytext ≠ 0 := fun hact => by
    have haction := h.action
    rw [hact] at haction
    cases haction
  exact (Nat.sub_add_cancel (Nat.pos_of_ne_zero hpos)).symm

/-- What a rule matches begins with a letter that the rule may begin with. -/
theorem exists_letter {i : ℕ} {p : Pattern CharClass} {w : StdString} (hp : patterns[i]? = some p)
    (hc : c ≠ 0) (h : c :: w ∈ p.language CharClass.has) :
    letterOf c.toNat ∈ letters ∧ ∃ y ∈ p.heads, y.1.has (letterOf c.toNat) := by
  obtain ⟨hmem, -, hsets⟩ := letterOf_spec c.toNat c.toNat_lt (toNat_ne_zero hc)
  rw [Pattern.cons_mem_language] at h
  obtain ⟨y, hy, hhas, -⟩ := h
  have hagrees := @agrees_foldl [] (by intro c hc; cases hc)
  have hdistinguished := (agrees_some.mp hagrees).2.2 _ (Items.mem_ofRules.mpr hp) y hy
  have hsame := hsets y.1 (mem_sets hdistinguished)
  exact ⟨hmem, y, hy, hsame.symm.trans hhas⟩

/-- The first character of a lexeme is one of its side. -/
theorem Lexeme.Written.exists_cons (h : l.Written) :
    ∃ c s, l.yytext = c :: s ∧ sideOf c.toNat = some l.token.side := by
  obtain ⟨c, s, hs⟩ := List.exists_cons_of_ne_nil h.ne_nil
  refine ⟨c, s, hs, ?_⟩
  have haction := h.action
  have hzero : c ≠ 0 := h.noZero c (hs ▸ List.mem_cons_self)
  obtain ⟨⟨p, hp, hmatched⟩, -⟩ := (acceptedBy_eq_succ _).mp h.acceptedBy_eq
  rw [h.acceptedBy_eq] at haction
  rw [hs] at hmatched
  obtain ⟨hmem, y, hy, hletter⟩ := exists_letter hp hzero hmatched
  have hi : acceptedBy l.yytext - 1 < 55 := (List.getElem?_eq_some_iff.mp hp).1
  rw [← sideOf_letterOf c.toNat c.toNat_lt (toNat_ne_zero hzero)]
  exact sideOf_heads _ hi p hp y hy _ hmem hletter _ (Token.mem_all _) haction

/-- What may come behind a lexeme: nothing, a blank, or a character of another side. -/
def Lexeme.Before (l : Lexeme) (rest : List UInt8) : Prop :=
  ∀ c ∈ rest.head?, sideOf c.toNat = none ∨ ∃ k, sideOf c.toNat = some k ∧ l.token.side.touches k

/-- **A lexeme is found again**, whatever comes behind it that it keeps apart from. -/
theorem Lexeme.Written.munch (h : l.Written) (hzero : NoZero rest) (hrest : l.Before rest) :
    Munch CharClass.has patterns (l.yytext ++ rest) (acceptedBy l.yytext - 1) l.yytext := by
  obtain ⟨hmatched, hfirst⟩ := (acceptedBy_eq_succ _).mp h.acceptedBy_eq
  refine .of_stop hmatched hfirst (fun j v hv hne => ?_)
  obtain ⟨c, v, rfl⟩ := List.exists_cons_of_ne_nil hne
  obtain ⟨rest', rfl⟩ := hv
  have hc : c ≠ 0 := hzero c List.mem_cons_self
  have huc : NoZero (l.yytext ++ [c]) := by
    intro a ha
    rcases List.mem_append.mp ha with ha | ha
    · exact h.noZero a ha
    · rwa [List.mem_singleton.mp ha]
  obtain ⟨q, hq, hfour, hle⟩ := stateOf_bounds h.noZero h.ne_nil
  obtain ⟨q₁, hq₁, haccept, -⟩ := exists_stateOf h.noZero
  cases hq.symm.trans hq₁
  obtain ⟨q', hnext, -, -, hjam⟩ := keepsApart_spec (Nat.lt_succ_of_le hle) (.inr hfour) hc
  have hq' : q' = 174 := by
    rcases hjam with hjam | rfl | hside
    · exact hjam
    · exact absurd hfour (by decide)
    · obtain ⟨k, hk, hnot⟩ := hside _ (haccept ▸ h.action)
      rcases hrest c rfl with hnone | ⟨k', hk', htouches⟩
      · rw [hnone] at hk
        cases hk
      · cases Option.some.inj (hk'.symm.trans hk)
        rw [htouches] at hnot
        cases hnot
  obtain ⟨q₂, hq₂, haccept₂, hstop⟩ := exists_stateOf huc
  rw [stateOf_concat, hq, Option.bind_some, hnext, hq'] at hq₂
  cases hq₂
  have hnot : acceptedBy (l.yytext ++ [c] ++ v) = 0 := by
    by_cases hv : v = []
    · rw [hv, List.append_nil]
      exact haccept₂.symm
    · exact acceptedBy_append hstop hv
  rw [List.append_assoc] at hnot
  exact not_matches_of_acceptedBy hnot j

/-! ## Which texts are lexemes -/

/-- The rules before the one of identifiers are those of strings and of tokens with one
text. -/
theorem patterns_keyword : ∀ i < 38, i = 0 ∨ ∃ t ∈ Token.all, ∃ s ∈ t.spelling,
    patterns[i]? = some (literal s) := by
  decide +kernel

/-- A token that has one text only is written with it. -/
theorem written_fixed {t : Token} (h : t.spelling.isSome) : (Lexeme.fixed t).Written := by
  have hall : ∀ t ∈ Token.all, t.spelling.isSome →
      (t.spelling.getD [] ≠ [] ∧ ∀ c ∈ t.spelling.getD [], c ≠ 0) ∧
        ruleAction (acceptedBy (t.spelling.getD [])) = some (.token t) := by
    decide +kernel
  obtain ⟨⟨hne, hzero⟩, haction⟩ := hall t t.mem_all h
  exact ⟨hne, hzero, haction⟩

/-- The rule that takes a text, by its number. -/
theorem ruleAction_iff : ∀ act < 56,
    (ruleAction act = some (.token .STRING) ↔ act = 1) ∧
      (ruleAction act = some (.token .IDENTIFIER) ↔ act = 39) ∧
        (ruleAction act = some (.token .NUMBER) ↔ act = 40 ∨ act = 41) := by
  decide +kernel

theorem written_iff {s : StdString} (hl : l.yytext = s) : l.Written ↔
    s ≠ [] ∧ NoZero s ∧ ruleAction (acceptedBy s) = some (.token l.token) := by
  subst hl
  exact ⟨fun h => ⟨h.ne_nil, h.noZero, h.action⟩, fun h => ⟨h.1, h.2.1, h.2.2⟩⟩

/-- **A string** is written as its rule says. -/
theorem written_string_iff {s : StdString} : (Lexeme.string s).Written ↔
    NoZero s ∧ s ∈ stringPattern.language CharClass.has := by
  have hnil : [] ∉ stringPattern.language CharClass.has := by
    rw [Pattern.nil_mem_language]
    decide
  have hmatches : Matches CharClass.has patterns 0 s ↔
      s ∈ stringPattern.language CharClass.has := by
    constructor
    · rintro ⟨p, hp, h⟩
      cases hp
      exact h
    · exact fun h => ⟨_, rfl, h⟩
  rw [written_iff rfl]
  change s ≠ [] ∧ NoZero s ∧ ruleAction (acceptedBy s) = some (.token .STRING) ↔ _
  rw [(ruleAction_iff _ (Nat.lt_succ_of_le (acceptedBy_le s))).1, acceptedBy_eq_succ, hmatches]
  constructor
  · rintro ⟨-, hzero, h, -⟩
    exact ⟨hzero, h⟩
  · rintro ⟨hzero, h⟩
    refine ⟨?_, hzero, h, fun j _ => Nat.zero_le j⟩
    rintro rfl
    exact hnil h

/-- Strings, words and numbers begin differently. -/
theorem heads_apart : ∀ c ∈ letters,
    (∀ i < 39, ∀ p ∈ patterns[i]?, ∀ y ∈ p.heads, y.1.has c →
      ∀ y ∈ floatPattern.heads ++ integerPattern.heads, y.1.has c = false) ∧
    (∀ y ∈ stringPattern.heads, y.1.has c → ∀ y ∈ identifierPattern.heads, y.1.has c = false) := by
  decide +kernel

/-- **An identifier** is a letter with letters and digits behind it that is no keyword. -/
theorem written_identifier_iff {w : StdString} : (Lexeme.identifier (c :: w)).Written ↔
    CharClass.letter.has c ∧ (∀ a ∈ w, CharClass.letterOrDigit.has a) ∧
      ∀ t : Token, t.spelling ≠ some (c :: w) := by
  have hmatches : Matches CharClass.has patterns 38 (c :: w) ↔
      CharClass.letter.has c ∧ ∀ a ∈ w, CharClass.letterOrDigit.has a := by
    have hlanguage : c :: w ∈ identifierPattern.language CharClass.has ↔
        CharClass.letter.has c ∧ ∀ a ∈ w, CharClass.letterOrDigit.has a := by
      rw [Pattern.cons_mem_language, ← Pattern.mem_language_star_one]
      constructor
      · rintro ⟨y, hy, hc, hw⟩
        cases List.mem_singleton.mp hy
        exact ⟨hc, hw⟩
      · rintro ⟨hc, hw⟩
        exact ⟨_, List.mem_singleton_self _, hc, hw⟩
    rw [← hlanguage]
    constructor
    · rintro ⟨p, hp, h⟩
      cases hp
      exact h
    · exact fun h => ⟨_, rfl, h⟩
  have hact := (ruleAction_iff _ (Nat.lt_succ_of_le (acceptedBy_le (c :: w)))).2.1
  rw [written_iff rfl]
  change c :: w ≠ [] ∧ NoZero (c :: w) ∧
    ruleAction (acceptedBy (c :: w)) = some (.token .IDENTIFIER) ↔ _
  constructor
  · rintro ⟨-, -, haction⟩
    obtain ⟨hc, hw⟩ := hmatches.mp ((acceptedBy_eq_succ 38).mp (hact.mp haction)).1
    refine ⟨hc, hw, fun t ht => ?_⟩
    have hfixed := (written_fixed (Option.isSome_of_eq_some ht)).action
    have htext : (Lexeme.fixed t).yytext = c :: w := congrArg (·.getD []) ht
    rw [htext, haction] at hfixed
    cases hfixed
    cases ht
  · rintro ⟨hc, hw, hkeyword⟩
    have hpositive (k : CharClass) (hk : k.hasCode 0 = false) {a : UInt8} (ha : k.has a) :
        a ≠ 0 := by
      rintro rfl
      rw [CharClass.has, UInt8.toNat_zero, hk] at ha
      cases ha
    have hzero : NoZero (c :: w) := List.forall_mem_cons.mpr
      ⟨hpositive .letter rfl hc, fun a ha => hpositive .letterOrDigit rfl (hw a ha)⟩
    refine ⟨List.cons_ne_nil c w, hzero, hact.mpr ((acceptedBy_eq_succ 38).mpr
      ⟨hmatches.mpr ⟨hc, hw⟩, fun j hj => ?_⟩)⟩
    by_contra hlt
    obtain ⟨p, hp, hmem⟩ := hj
    rcases patterns_keyword j (Nat.lt_of_not_le hlt) with rfl | ⟨t, -, s, hs, hliteral⟩
    · cases hp
      obtain ⟨hletter, y, hy, hhas⟩ := exists_letter (i := 0) rfl (hzero c List.mem_cons_self) hmem
      obtain ⟨q, hq, hident⟩ := hmatches.mpr ⟨hc, hw⟩
      cases hq
      obtain ⟨-, z, hz, hhas'⟩ := exists_letter (i := 38) rfl (hzero c List.mem_cons_self) hident
      rw [(heads_apart _ hletter).2 y hy hhas z hz] at hhas'
      cases hhas'
    · cases hp.symm.trans hliteral
      rw [(mem_language_literal s (c :: w)).mp hmem] at hkeyword
      exact hkeyword t hs

/-- **A number** has at least a minus or a digit. -/
theorem written_number_iff {s : StdString} : (Lexeme.number s).Written ↔ s ≠ [] ∧ NoZero s ∧
    (s ∈ floatPattern.language CharClass.has ∨ s ∈ integerPattern.language CharClass.has) := by
  have hact := (ruleAction_iff _ (Nat.lt_succ_of_le (acceptedBy_le s))).2.2
  have hfloat : patterns[39]? = some floatPattern := rfl
  have hinteger : patterns[40]? = some integerPattern := rfl
  rw [written_iff rfl]
  refine and_congr_right fun hne => and_congr_right fun hzero => ?_
  change ruleAction (acceptedBy s) = some (.token .NUMBER) ↔ _
  rw [hact]
  constructor
  · rintro (h | h)
    · obtain ⟨⟨p, hp, hmem⟩, -⟩ := (acceptedBy_eq_succ 39).mp h
      cases hp.symm.trans hfloat
      exact .inl hmem
    · obtain ⟨⟨p, hp, hmem⟩, -⟩ := (acceptedBy_eq_succ 40).mp h
      cases hp.symm.trans hinteger
      exact .inr hmem
  · intro h
    obtain ⟨c, w, rfl⟩ := List.exists_cons_of_ne_nil hne
    have hc := hzero c List.mem_cons_self
    obtain ⟨i, hi, hmatches⟩ : ∃ i, (i = 39 ∨ i = 40) ∧
        Matches CharClass.has patterns i (c :: w) := by
      rcases h with h | h
      · exact ⟨39, .inl rfl, _, hfloat, h⟩
      · exact ⟨40, .inr rfl, _, hinteger, h⟩
    have hnumber : ∃ y ∈ floatPattern.heads ++ integerPattern.heads,
        y.1.has (letterOf c.toNat) := by
      rcases h with h | h
      · obtain ⟨-, y, hy, hhas⟩ := exists_letter hfloat hc h
        exact ⟨y, List.mem_append_left _ hy, hhas⟩
      · obtain ⟨-, y, hy, hhas⟩ := exists_letter hinteger hc h
        exact ⟨y, List.mem_append_right _ hy, hhas⟩
    obtain ⟨z, hz, hzhas⟩ := hnumber
    cases haccepted : acceptedBy (c :: w) with
    | zero => exact absurd hmatches (not_matches_of_acceptedBy haccepted i)
    | succ j =>
      obtain ⟨⟨p, hp, hmem⟩, hfirst⟩ := (acceptedBy_eq_succ j).mp haccepted
      have hle := hfirst i hmatches
      have hge : 39 ≤ j := by
        by_contra hlt
        obtain ⟨hletter, y, hy, hhas⟩ := exists_letter hp hc hmem
        rw [(heads_apart _ hletter).1 j (Nat.lt_of_not_le hlt) p hp y hy hhas z hz] at hzhas
        cases hzhas
      omega

/-! ## Blanks -/

/-- A text of blanks. -/
def IsBlank (gap : StdString) : Prop := ∀ c ∈ gap, CharClass.blank.has c

theorem isBlank_nil : IsBlank [] := fun _ h => absurd h List.not_mem_nil

theorem mem_of_blank (h : CharClass.blank.has c) : c ∈ ([32, 9, 11, 10, 12] : List UInt8) := by
  have hcode : c.toNat = 32 ∨ c.toNat = 9 ∨ c.toNat = 11 ∨ c.toNat = 10 ∨ c.toNat = 12 := by
    simpa [CharClass.has, CharClass.hasCode, or_assoc] using h
  simp only [List.mem_cons, List.not_mem_nil, or_false, ← UInt8.toNat_inj]
  exact hcode

theorem blank_spec : ∀ c ∈ ([32, 9, 11, 10, 12] : List UInt8), c ≠ 0 ∧ sideOf c.toNat = none ∧
    acceptedBy [c] = 54 ∧ ∀ x ∈ itemsAfter [c], x.2.heads = [] := by
  decide +kernel

theorem IsBlank.noZero {gap : StdString} (h : IsBlank gap) : NoZero gap :=
  fun c hc => (blank_spec c (mem_of_blank (h c hc))).1

/-- Nothing is found in blanks. -/
theorem scans_blank {gap : StdString} (h : IsBlank gap) {found : List (ℕ × StdString)}
    (hscans : Scans CharClass.has patterns rest found) :
    ∃ found', Scans CharClass.has patterns (gap ++ rest) found' ∧
      found'.filterMap finds = found.filterMap finds := by
  induction gap with
  | nil => exact ⟨found, hscans, rfl⟩
  | cons c gap ih =>
    obtain ⟨hc, hgap⟩ := List.forall_mem_cons.mp h
    obtain ⟨found', hscans', heq⟩ := ih hgap
    obtain ⟨-, -, haccepted, hstop⟩ := blank_spec c (mem_of_blank hc)
    obtain ⟨hmatched, hfirst⟩ := (acceptedBy_eq_succ 53).mp haccepted
    have hmunch : Munch CharClass.has patterns ([c] ++ (gap ++ rest)) 53 [c] :=
      .of_stop hmatched hfirst (fun j v _ hne =>
        not_matches_of_acceptedBy (acceptedBy_append hstop hne) j)
    refine ⟨(53, [c]) :: found', .cons (List.cons_ne_nil c []) hmunch hscans', ?_⟩
    rw [List.filterMap_cons_none (by rfl), heq]

/-! ## Lexemes with blanks between them -/

/-- Lexemes, each with the blanks before it, and the blanks behind them. -/
structure Layout where
  /-- The lexemes. -/
  pieces : List (StdString × Lexeme)
  /-- The blanks behind them. -/
  last : StdString
  /-- The texts are those of the lexemes. -/
  written : ∀ x ∈ pieces, x.2.Written
  /-- There are only blanks between them. -/
  blank : ∀ x ∈ pieces, IsBlank x.1
  /-- There are blanks where lexemes would run together. -/
  apart : pieces.IsChain (fun x y => y.1 = [] → x.2.token.side.touches y.2.token.side)
  /-- There are only blanks behind them. -/
  blank_last : IsBlank last

namespace Layout

/-- The text of lexemes with their blanks. -/
def textOf (last : StdString) : List (StdString × Lexeme) → StdString
  | [] => last
  | (gap, l) :: pieces => gap ++ (l.yytext ++ textOf last pieces)

/-- The text of a layout. -/
def text (L : Layout) : StdString := textOf L.last L.pieces

/-- The lexemes of a layout. -/
def lexemes (L : Layout) : List Lexeme := L.pieces.map Prod.snd

variable {pieces : List (StdString × Lexeme)} {last : StdString}

theorem noZero_textOf (hwritten : ∀ x ∈ pieces, x.2.Written) (hblank : ∀ x ∈ pieces, IsBlank x.1)
    (hlast : IsBlank last) : NoZero (textOf last pieces) := by
  induction pieces with
  | nil => exact hlast.noZero
  | cons x pieces ih =>
    obtain ⟨hx, hwritten⟩ := List.forall_mem_cons.mp hwritten
    obtain ⟨hgap, hblank⟩ := List.forall_mem_cons.mp hblank
    intro c hc
    rcases List.mem_append.mp hc with hc | hc
    · exact hgap.noZero c hc
    · rcases List.mem_append.mp hc with hc | hc
      · exact hx.noZero c hc
      · exact ih hwritten hblank c hc

theorem before_of_blank {gap : StdString} (hgap : IsBlank gap) (hne : gap ≠ [])
    (rest : List UInt8) (l : Lexeme) : l.Before (gap ++ rest) := by
  obtain ⟨c, gap, rfl⟩ := List.exists_cons_of_ne_nil hne
  intro a ha
  cases ha
  exact .inl (blank_spec c (mem_of_blank (hgap c List.mem_cons_self))).2.1

/-- A lexeme keeps apart from what comes behind it. -/
theorem before_textOf {x : StdString × Lexeme} (hwritten : ∀ x ∈ pieces, x.2.Written)
    (hblank : ∀ x ∈ pieces, IsBlank x.1)
    (hapart : (x :: pieces).IsChain
      (fun x y => y.1 = [] → x.2.token.side.touches y.2.token.side))
    (hlast : IsBlank last) : x.2.Before (textOf last pieces) := by
  cases pieces with
  | nil =>
    by_cases hnil : last = []
    · intro c hc
      rw [textOf, hnil] at hc
      cases hc
    · have h := before_of_blank hlast hnil [] x.2
      rwa [List.append_nil] at h
  | cons y pieces =>
    obtain ⟨gap, l⟩ := y
    by_cases hnil : gap = []
    · cases hnil
      obtain ⟨c, s, hs, hside⟩ := (hwritten _ List.mem_cons_self).exists_cons
      have htouches := (List.isChain_cons_cons.mp hapart).1 rfl
      intro a ha
      rw [textOf, List.nil_append, hs] at ha
      cases ha
      exact .inr ⟨_, hside, htouches⟩
    · exact before_of_blank (hblank _ List.mem_cons_self) hnil _ _

/-- **The lexemes are found again.** -/
theorem scans_textOf (hwritten : ∀ x ∈ pieces, x.2.Written) (hblank : ∀ x ∈ pieces, IsBlank x.1)
    (hapart : pieces.IsChain (fun x y => y.1 = [] → x.2.token.side.touches y.2.token.side))
    (hlast : IsBlank last) :
    ∃ found, Scans CharClass.has patterns (textOf last pieces) found ∧
      found.filterMap finds = pieces.map (fun x => .token x.2) := by
  induction pieces with
  | nil =>
    obtain ⟨found, hscans, heq⟩ := scans_blank hlast .nil
    rw [List.append_nil] at hscans
    exact ⟨found, hscans, heq⟩
  | cons x pieces ih =>
    obtain ⟨hx, hwritten'⟩ := List.forall_mem_cons.mp hwritten
    obtain ⟨hgap, hblank'⟩ := List.forall_mem_cons.mp hblank
    obtain ⟨found, hscans, heq⟩ := ih hwritten' hblank' hapart.tail
    have hmunch := hx.munch (noZero_textOf hwritten' hblank' hlast)
      (before_textOf hwritten' hblank' hapart hlast)
    obtain ⟨found', hscans', heq'⟩ := scans_blank hgap (.cons hx.ne_nil hmunch hscans)
    refine ⟨found', hscans', ?_⟩
    have hfinds : finds (acceptedBy x.2.yytext - 1, x.2.yytext) = some (.token x.2) := by
      unfold finds
      rw [← hx.acceptedBy_eq, hx.action, Option.bind_some, RuleAction.scanned_token x.2.spelled]
      rfl
    rw [heq', List.filterMap_cons_some hfinds, heq, List.map_cons]

/-- **What is written is scanned.** -/
theorem yyscan_text (L : Layout) {rounds : ℕ} (h : L.text.length < rounds) :
    yyscan rounds L.text = some (L.lexemes.map .token) := by
  obtain ⟨found, hscans, heq⟩ := scans_textOf L.written L.blank L.apart L.blank_last
  obtain ⟨found', hscans', hruns⟩ := yyscan_scans (noZero_textOf L.written L.blank L.blank_last)
  cases hscans.unique hscans'
  have hmap : L.lexemes.map Scanned.token = L.pieces.map (fun x => .token x.2) := List.map_map
  rw [hmap, ← heq]
  exact hruns rounds h

end Layout

end MiniSql.Parser
