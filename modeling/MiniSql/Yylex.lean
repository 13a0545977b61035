import Mathlib.Data.List.TakeWhile
import MiniSql.LexPatterns

/-!
# What the scanner finds

A match of `yylex` remembers the longest beginning of the text so far that a rule matches
(`Reads`), and ends with the longest one of all (`Best`), also where the end of the text is
read first. So `yylex` takes every text apart by longest matches (`yyscan_munch`).
-/

namespace MiniSql.Parser

open MaximalMunch

/-- `yy_scan_string`: the text in a buffer, up to its first zero. -/
def yyScanString (buffer : List UInt8) : StdString := buffer.takeWhile (fun c => c ≠ 0)

/-- A text without zeros. -/
def NoZero (text : List UInt8) : Prop := ∀ c ∈ text, c ≠ 0

instance (text : List UInt8) : Decidable (NoZero text) := List.decidableBAll _ text

theorem noZero_yyScanString (buffer : List UInt8) : NoZero (yyScanString buffer) := by
  intro c hc
  have h := List.mem_takeWhile_imp (p := fun c => decide (c ≠ 0)) hc
  exact of_decide_eq_true h

theorem yyScanString_append {text : List UInt8} (h : NoZero text) (rest : List UInt8) :
    yyScanString (text ++ 0 :: rest) = text := by
  unfold yyScanString
  rw [List.takeWhile_append_of_pos (fun c hc => decide_eq_true (h c hc))]
  simp

/-- The state behind a text. -/
def stateOf (text : List UInt8) : Option ℕ := text.foldl stateAfter (some 1)

/-- The rule that is accepted behind a text, or 0. -/
def acceptedBy (text : List UInt8) : ℕ := ((itemsAfter text).accepted.map (· + 1)).getD 0

variable {t u : List UInt8} {i n act : ℕ} {m : Match}

theorem NoZero.take (h : NoZero t) (i : ℕ) : NoZero (t.take i) :=
  fun c hc => h c (List.mem_of_mem_take hc)

theorem NoZero.drop (h : NoZero t) (i : ℕ) : NoZero (t.drop i) :=
  fun c hc => h c (List.mem_of_mem_drop hc)

/-- A text leads to a state, which accepts what the rules say. -/
theorem exists_stateOf (h : NoZero t) : ∃ q, stateOf t = some q ∧
    yyAccept.getD q 0 = acceptedBy t ∧
      if yyBase.getD q 0 = 189 then ∀ x ∈ itemsAfter t, x.2.heads = []
      else yyTransition 177 q 0 = some 3 := by
  have hagrees := agrees_foldl h
  change agrees (stateOf t) (itemsAfter t) at hagrees
  cases hq : stateOf t with
  | none =>
    rw [hq] at hagrees
    cases hagrees
  | some q =>
    rw [hq] at hagrees
    obtain ⟨haccept, hstop, -⟩ := agrees_some.mp hagrees
    exact ⟨q, rfl, haccept, hstop⟩

theorem stateOf_concat (t : List UInt8) (c : UInt8) :
    stateOf (t ++ [c]) = (stateOf t).bind (fun q => yyNext q c) := by
  unfold stateOf
  rw [List.foldl_append]
  rfl

theorem acceptedBy_eq_succ (i : ℕ) : acceptedBy t = i + 1 ↔
    Matches CharClass.has patterns i t ∧ ∀ j, Matches CharClass.has patterns j t → i ≤ j := by
  rw [← Items.accepted_foldl_iff]
  change ((itemsAfter t).accepted.map (· + 1)).getD 0 = i + 1 ↔ (itemsAfter t).accepted = some i
  cases (itemsAfter t).accepted with
  | none => exact iff_of_false (Nat.succ_ne_zero i).symm (by intro h; cases h)
  | some j =>
    rw [Option.map_some, Option.getD_some, Nat.add_right_cancel_iff, Option.some.injEq]

theorem not_matches_of_acceptedBy (h : acceptedBy t = 0) (i : ℕ) :
    ¬ Matches CharClass.has patterns i t := by
  refine Items.not_matches_of_accepted ?_
  change (itemsAfter t).accepted = none
  unfold acceptedBy at h
  cases haccepted : (itemsAfter t).accepted with
  | none => rfl
  | some j =>
    rw [haccepted] at h
    cases h

theorem acceptedBy_le (t : List UInt8) : acceptedBy t ≤ 55 := by
  cases h : acceptedBy t with
  | zero => exact Nat.zero_le _
  | succ i =>
    obtain ⟨⟨p, hp, -⟩, -⟩ := (acceptedBy_eq_succ i).mp h
    exact (List.getElem?_eq_some_iff.mp hp).1

theorem acceptedBy_nil : acceptedBy [] = 41 := by decide +kernel

/-- Every character is matched by a rule. -/
theorem acceptedBy_singleton (c : UInt8) : acceptedBy [c] ≠ 0 := by
  intro h
  have hnot := not_matches_of_acceptedBy h
  by_cases hc : c.toNat = 10
  · refine hnot 53 ⟨.one .blank, rfl, c, ?_, rfl⟩
    unfold CharClass.has CharClass.hasCode
    rw [hc]
    rfl
  · refine hnot 54 ⟨.one .notNewline, rfl, c, ?_, rfl⟩
    exact bne_iff_ne.mpr hc

/-- Where nothing can come behind a text, nothing is accepted behind more of it. -/
theorem acceptedBy_append (h : ∀ x ∈ itemsAfter t, x.2.heads = []) (hu : u ≠ []) :
    acceptedBy (t ++ u) = 0 := by
  have hnil : ∀ u : List UInt8, u.foldl (Items.after CharClass.has) [] = [] := by
    intro u
    induction u with
    | nil => rfl
    | cons c u ih => exact ih
  obtain ⟨c, u, rfl⟩ := List.exists_cons_of_ne_nil hu
  have hafter : (itemsAfter t).after CharClass.has c = [] := by
    unfold Items.after
    rw [List.flatMap_eq_nil_iff]
    intro x hx
    rw [h x hx]
    rfl
  have hitems : itemsAfter (t ++ c :: u) = [] := by
    unfold itemsAfter at hafter ⊢
    rw [List.foldl_append, List.foldl_cons, hafter, hnil]
  unfold acceptedBy
  rw [hitems]
  rfl

/-! ## One match -/

/-- What is remembered is the longest beginning that is accepted, of those shorter than
`i`. -/
structure Remembers (t : List UInt8) (i : ℕ) (m : Match) : Prop where
  lt : m.yyLastAcceptingCpos < i
  accepted : yyAccept.getD m.yyLastAcceptingState 0 = acceptedBy (t.take m.yyLastAcceptingCpos)
  ne_zero : acceptedBy (t.take m.yyLastAcceptingCpos) ≠ 0
  later : ∀ j, m.yyLastAcceptingCpos < j → j < i → acceptedBy (t.take j) = 0

/-- The first `i` characters of a text have been read. -/
structure Reads (t : List UInt8) (i : ℕ) (m : Match) : Prop where
  cp : m.yyCp = i
  le : i ≤ t.length
  state : stateOf (t.take i) = some m.yyCurrentState
  remembers : 0 < i → Remembers t i m

/-- The longest beginning of a text that is accepted. -/
structure Best (t : List UInt8) (act n : ℕ) : Prop where
  le : n ≤ t.length
  accepted : acceptedBy (t.take n) = act
  ne_zero : act ≠ 0
  later : ∀ j, n < j → j ≤ t.length → acceptedBy (t.take j) = 0

namespace Reads

/-- What the state accepts. -/
theorem accept_eq (ht : NoZero t) (h : Reads t i m) :
    yyAccept.getD m.yyCurrentState 0 = acceptedBy (t.take i) := by
  obtain ⟨q, hq, haccept, -⟩ := exists_stateOf (ht.take i)
  cases h.state.symm.trans hq
  exact haccept

theorem stop (ht : NoZero t) (h : Reads t i m) :
    if yyBase.getD m.yyCurrentState 0 = 189 then ∀ x ∈ itemsAfter (t.take i), x.2.heads = []
    else yyTransition 177 m.yyCurrentState 0 = some 3 := by
  obtain ⟨q, hq, -, hstop⟩ := exists_stateOf (ht.take i)
  cases h.state.symm.trans hq
  exact hstop

theorem remember (ht : NoZero t) (h : Reads t i m) : Remembers t (i + 1) m.remember := by
  have haccept := h.accept_eq ht
  unfold Match.remember
  by_cases hzero : yyAccept.getD m.yyCurrentState 0 = 0
  · rw [if_pos hzero]
    rw [hzero] at haccept
    have hpos : 0 < i := by
      refine Nat.pos_of_ne_zero ?_
      rintro rfl
      rw [List.take_zero, acceptedBy_nil] at haccept
      cases haccept
    obtain ⟨hlt, haccepted, hne, hlater⟩ := h.remembers hpos
    refine ⟨Nat.lt_succ_of_lt hlt, haccepted, hne, fun j hj hi => ?_⟩
    rcases Nat.lt_succ_iff_lt_or_eq.mp hi with hi | rfl
    · exact hlater j hj hi
    · exact haccept.symm
  · rw [if_neg hzero]
    have hcp := h.cp
    refine ⟨?_, ?_, ?_, ?_⟩
    · exact Nat.lt_succ_of_le hcp.le
    · rw [hcp]
      exact haccept
    · rw [hcp, ← haccept]
      exact hzero
    · intro j hj hi
      have hj : m.yyCp < j := hj
      omega

theorem remember_state (m : Match) : m.remember.yyCurrentState = m.yyCurrentState := by
  unfold Match.remember
  split <;> rfl

theorem remember_cp (m : Match) : m.remember.yyCp = m.yyCp := by
  unfold Match.remember
  split <;> rfl

/-- One more character is read. -/
theorem advance (ht : NoZero t) (h : Reads t i m) (hi : i < t.length) :
    ∃ q, yyNext m.remember.yyCurrentState t[i] = some q ∧
      Reads t (i + 1) (m.remember.advance q) := by
  have htake : t.take (i + 1) = t.take i ++ [t[i]] := (List.take_append_getElem hi).symm
  obtain ⟨q, hq, -⟩ := exists_stateOf (ht.take (i + 1))
  have hnext := hq
  rw [htake, stateOf_concat, h.state, Option.bind_some] at hnext
  refine ⟨q, by rw [remember_state, hnext], ?_, hi, hq, fun _ => ?_⟩
  · change m.remember.yyCp + 1 = i + 1
    rw [remember_cp, h.cp]
  · obtain ⟨hlt, haccepted, hne, hlater⟩ := h.remember ht
    exact ⟨hlt, haccepted, hne, hlater⟩

/-- Where nothing more is accepted, what is found is the longest beginning of all. -/
theorem best (ht : NoZero t) (h : Reads t i m) (hpos : 0 < i)
    (hmore : ∀ j, i < j → j ≤ t.length → acceptedBy (t.take j) = 0) :
    Best t (yyFindAction m).1 (yyFindAction m).2 := by
  have haccept := h.accept_eq ht
  unfold yyFindAction
  by_cases hzero : yyAccept.getD m.yyCurrentState 0 = 0
  · simp only [hzero, if_true]
    rw [hzero] at haccept
    obtain ⟨hlt, haccepted, hne, hlater⟩ := h.remembers hpos
    refine ⟨hlt.le.trans h.le, haccepted.symm, haccepted ▸ hne, fun j hj hjt => ?_⟩
    rcases Nat.lt_trichotomy j i with hji | rfl | hij
    · exact hlater j hj hji
    · exact haccept.symm
    · exact hmore j hij hjt
  · simp only [hzero, if_false]
    have hcp := h.cp
    refine ⟨hcp.symm ▸ h.le, ?_, hzero, ?_⟩
    · rw [hcp, haccept]
    · rw [hcp]
      exact hmore

end Reads

theorem reads_start (m : Match) (hcp : m.yyCp = 0) (hstate : m.yyCurrentState = 1) :
    Reads t 0 m where
  cp := hcp
  le := Nat.zero_le _
  state := by rw [hstate]; rfl
  remembers h := absurd h (Nat.lt_irrefl 0)

/-- The end of the buffer is read where the state goes on. -/
theorem yyMatch_end (m : Match) (h : yyTransition 177 m.yyCurrentState 0 = some 3) :
    ∃ m', yyMatch m [0, 0] = some m' ∧ yyFindAction m' = (57, m.yyCp + 1) := by
  have hnext : yyNext m.remember.yyCurrentState 0 = some 3 := by
    rw [Reads.remember_state]
    exact h
  have hthree : yyNext 3 0 = some 174 := by decide +kernel
  have hbase : yyBase.getD 3 0 ≠ 189 := by decide
  have hjam : yyBase.getD 174 0 = 189 := by decide
  generalize hm : m.remember.advance 3 = m₁
  have hstate : m₁.remember.yyCurrentState = 3 := by
    rw [Reads.remember_state, ← hm]
    rfl
  have hlast : m₁.remember =
      { m₁ with yyLastAcceptingState := 3, yyLastAcceptingCpos := m₁.yyCp } := by
    rw [← hm]
    rfl
  refine ⟨m₁.remember.advance 174, ?_, ?_⟩
  · unfold yyMatch
    simp only [hnext, Option.bind_eq_bind, Option.bind_some, hm, hbase, if_false]
    unfold yyMatch
    simp only [hstate, hthree, Option.bind_eq_bind, Option.bind_some, hjam, if_true]
  · rw [hlast, ← hm, ← Reads.remember_cp m]
    rfl

/-- **A match ends** with the longest beginning that is accepted, or behind the end of the
text. -/
theorem yyMatch_spec (ht : NoZero t) (h : Reads t i m)
    (hgo : yyBase.getD m.yyCurrentState 0 ≠ 189) :
    ∃ m', yyMatch m (t.drop i ++ [0, 0]) = some m' ∧
      (Best t (yyFindAction m').1 (yyFindAction m').2 ∨ yyFindAction m' = (57, t.length + 1)) := by
  generalize hn : t.length - i = n
  induction n generalizing i m with
  | zero =>
    have hi : i = t.length := by
      have hle := h.le
      omega
    have hstop := h.stop ht
    rw [if_neg hgo] at hstop
    obtain ⟨m', hm', hfind⟩ := yyMatch_end m hstop
    rw [h.cp, hi] at hfind
    rw [hi, List.drop_length]
    exact ⟨m', hm', .inr hfind⟩
  | succ n ih =>
    have hi : i < t.length := by omega
    obtain ⟨q, hq, h'⟩ := h.advance ht hi
    rw [List.drop_eq_getElem_cons hi, List.cons_append]
    unfold yyMatch
    simp only [hq, Option.bind_eq_bind, Option.bind_some]
    by_cases hbase : yyBase.getD q 0 = 189
    · rw [if_pos hbase]
      refine ⟨_, rfl, .inl (h'.best ht (Nat.succ_pos i) (fun j hj hjt => ?_))⟩
      have hstop := h'.stop ht
      rw [if_pos (show yyBase.getD (m.remember.advance q).yyCurrentState 0 = 189 from hbase)]
        at hstop
      have hsplit : t.take j = t.take (i + 1) ++ (t.drop (i + 1)).take (j - (i + 1)) := by
        rw [← List.take_add, Nat.add_sub_cancel' hj.le]
      rw [hsplit]
      refine acceptedBy_append hstop (List.ne_nil_of_length_pos ?_)
      rw [List.length_take, List.length_drop]
      omega
    · rw [if_neg hbase]
      exact ih h' hbase (by omega)

/-- All of the text is read once more. -/
theorem yyGetPreviousState_spec (ht : NoZero t) (h : Reads t i m) :
    ∃ m', yyGetPreviousState m (t.drop i) = some m' ∧ Reads t t.length m' := by
  generalize hn : t.length - i = n
  induction n generalizing i m with
  | zero =>
    have hi : i = t.length := by
      have hle := h.le
      omega
    rw [hi, List.drop_length]
    exact ⟨m, rfl, hi ▸ h⟩
  | succ n ih =>
    have hi : i < t.length := by omega
    obtain ⟨q, hq, h'⟩ := h.advance ht hi
    rw [List.drop_eq_getElem_cons hi]
    unfold yyGetPreviousState
    rw [if_neg (ht _ (List.getElem_mem hi)), hq]
    exact ih h' (by omega)

/-- **One round of `yylex`** finds the longest beginning that is accepted, and the end of
the file where there is nothing left. -/
theorem yyFind_spec (ht : NoZero t) (hne : t ≠ []) :
    ∃ act n, yyFind t = some (.action act n) ∧ Best t act n := by
  obtain ⟨m', hm', h⟩ := yyMatch_spec ht (reads_start .start rfl rfl) (by decide)
  rw [List.drop_zero] at hm'
  unfold yyFind
  rw [hm']
  generalize hfind : yyFindAction m' = x at h
  obtain ⟨act, n⟩ := x
  rcases h with hbest | heq
  · have hact : act ≠ yyEndOfBuffer := by
      have hle := acceptedBy_le (t.take n)
      rw [hbest.accepted] at hle
      unfold yyEndOfBuffer
      omega
    simp only [Option.bind_eq_bind, Option.bind_some, hfind, hact, ne_eq, not_false_eq_true,
      if_true]
    exact ⟨act, n, rfl, hbest⟩
  · cases heq
    have hlength : t.length ≠ 0 := fun h => hne (List.length_eq_zero_iff.mp h)
    obtain ⟨m₂, hm₂, h₂⟩ := yyGetPreviousState_spec ht
      (reads_start { m' with yyCurrentState := 1, yyCp := 0 } rfl rfl)
    rw [List.drop_zero] at hm₂
    have hbest := h₂.best ht (Nat.pos_of_ne_zero hlength)
      (fun j hj hjt => absurd hjt (Nat.not_le_of_lt hj))
    refine ⟨_, _, ?_, hbest⟩
    have hle : ¬ t.length + 1 ≤ t.length := by omega
    have hone : ¬ t.length + 1 = 1 := by omega
    simp only [Option.bind_eq_bind, Option.bind_some, hfind, yyEndOfBuffer, ne_eq,
      not_true_eq_false, if_false, hle, hone, hm₂]

theorem yyFind_nil : yyFind [] = some .endOfFile := by decide +kernel

namespace Best

/-- The longest beginning is the longest match of the rules. -/
theorem munch (h : Best t act n) :
    Munch CharClass.has patterns t (act - 1) (t.take n) := by
  have hact : acceptedBy (t.take n) = act - 1 + 1 := by
    rw [h.accepted, Nat.sub_add_cancel (Nat.pos_of_ne_zero h.ne_zero)]
  obtain ⟨hmatched, hfirst⟩ := (acceptedBy_eq_succ _).mp hact
  refine ⟨List.take_prefix n t, hmatched, fun j v hv hj => ?_, hfirst⟩
  rw [List.length_take_of_le h.le]
  by_contra hlength
  have hzero := h.later v.length (Nat.lt_of_not_le hlength) hv.length_le
  rw [← List.prefix_iff_eq_take.mp hv] at hzero
  exact not_matches_of_acceptedBy hzero j hj

theorem pos (h : Best t act n) (hne : t ≠ []) : 0 < n := by
  refine Nat.pos_of_ne_zero ?_
  rintro rfl
  obtain ⟨c, u, rfl⟩ := List.exists_cons_of_ne_nil hne
  exact acceptedBy_singleton c (h.later 1 Nat.zero_lt_one (Nat.succ_le_succ (Nat.zero_le _)))

end Best

/-! ## The actions -/

theorem mem_language_literal (s u : StdString) :
    u ∈ (literal s).language CharClass.has ↔ u = s := by
  induction s generalizing u with
  | nil => exact Language.mem_one u
  | cons c s ih =>
    change u ∈ (Pattern.seq (.one (.character c.toNat)) (literal s)).language CharClass.has ↔ _
    rw [Pattern.language, Language.mem_mul]
    constructor
    · rintro ⟨_, ⟨a, ha, rfl⟩, v, hv, rfl⟩
      rw [(ih v).mp hv, UInt8.toNat_inj.mp (beq_iff_eq.mp ha)]
      rfl
    · rintro rfl
      exact ⟨[c], ⟨c, beq_iff_eq.mpr rfl, rfl⟩, s, (ih s).mpr rfl, rfl⟩

/-- The rule of a token with one text only matches that text only. -/
theorem ruleAction_spec : ∀ i < 55,
    (ruleAction (i + 1) = some .blank ∨ ruleAction (i + 1) = some .unrecognized) ∨
      ∃ t ∈ Token.all, ruleAction (i + 1) = some (.token t) ∧
        ∀ s ∈ t.spelling, patterns[i]? = some (literal s) := by
  decide +kernel

/-- What is found by a rule in its text. -/
def finds (x : ℕ × StdString) : Option Scanned :=
  ((ruleAction (x.1 + 1)).bind (RuleAction.scanned x.2)).join

/-- Where a rule matches, its action does something. -/
theorem scanned_eq (h : Matches CharClass.has patterns i u) :
    (ruleAction (i + 1)).bind (RuleAction.scanned u) = some (finds (i, u)) := by
  obtain ⟨p, hp, hu⟩ := h
  unfold finds
  rcases ruleAction_spec i (List.getElem?_eq_some_iff.mp hp).1 with
    (haction | haction) | ⟨t, -, haction, hspelling⟩
  · rw [haction]
    rfl
  · rw [haction]
    rfl
  · have hspelled : ∀ s ∈ t.spelling, u = s := by
      intro s hs
      cases hp.symm.trans (hspelling s hs)
      exact (mem_language_literal s u).mp hu
    rw [haction, Option.bind_some, RuleAction.scanned_token hspelled]
    rfl

/-! ## All of a text -/

/-- **The scanner takes a text apart** by longest matches. -/
theorem yyscan_scans (ht : NoZero t) : ∃ found, Scans CharClass.has patterns t found ∧
    ∀ rounds, t.length < rounds → yyscan rounds t = some (found.filterMap finds) := by
  generalize hn : t.length = n
  induction n using Nat.strong_induction_on generalizing t with
  | _ n ih =>
    by_cases hne : t = []
    · cases hne
      refine ⟨[], .nil, fun rounds hrounds => ?_⟩
      obtain ⟨rounds, rfl⟩ := Nat.exists_eq_succ_of_ne_zero (Nat.ne_zero_of_lt hrounds)
      unfold yyscan
      rw [yyFind_nil]
      rfl
    · obtain ⟨act, k, hfind, hbest⟩ := yyFind_spec ht hne
      have hpos := hbest.pos hne
      have hmunch := hbest.munch
      have hle := hbest.le
      have hlength : (t.drop k).length < n := by
        rw [List.length_drop]
        omega
      obtain ⟨found, hscans, hruns⟩ := ih _ hlength (ht.drop k) rfl
      have htake : t.take k ≠ [] :=
        List.ne_nil_of_length_pos (by rw [List.length_take_of_le hle]; exact hpos)
      have hcons := Scans.cons htake (by rw [List.take_append_drop]; exact hmunch) hscans
      rw [List.take_append_drop] at hcons
      refine ⟨_, hcons, fun rounds hrounds => ?_⟩
      obtain ⟨rounds, rfl⟩ := Nat.exists_eq_succ_of_ne_zero (Nat.ne_zero_of_lt hrounds)
      have hscanned := scanned_eq hmunch.matched
      rw [Nat.sub_add_cancel (Nat.pos_of_ne_zero hbest.ne_zero)] at hscanned
      have hmore := hruns rounds (by omega)
      unfold yyscan
      rw [hfind]
      simp only [Option.bind_eq_bind, Option.bind_some]
      rw [← Option.bind_assoc, hscanned, Option.bind_some, hmore, Option.bind_some,
        List.filterMap_cons]
      cases finds (act - 1, t.take k) <;> rfl

/-- **`yylex` finds the longest matches**, whatever is in the buffer. What it returns until
the end are the tokens of the only way to take the text apart such that each piece is the
longest that a rule of `minisql.l` matches there, for the first such rule; it returns
nothing for a blank. No piece is empty, and together they are the text. -/
theorem yyscan_munch (buffer : List UInt8) : ∃ found,
    (∀ rounds, (yyScanString buffer).length < rounds →
      yyscan rounds (yyScanString buffer) = some (found.filterMap finds)) ∧
    Scans CharClass.has patterns (yyScanString buffer) found ∧
    (∀ found', Scans CharClass.has patterns (yyScanString buffer) found' → found' = found) ∧
    (found.map Prod.snd).flatten = yyScanString buffer := by
  obtain ⟨found, hscans, hruns⟩ := yyscan_scans (noZero_yyScanString buffer)
  exact ⟨found, hruns, hscans, fun _ h => h.unique hscans, hscans.flatten⟩

end MiniSql.Parser
