import Mathlib.Computability.Language

/-!
# Scanners

The rules of a scanner are patterns over classes of characters. From a text it takes the
longest beginning that some rule matches, for the first rule that matches it (`Munch`),
and goes on behind it (`Scans`).

What is left to be matched of the rules behind a word can be computed (`Items.after`), and
it says which rules match the word and which ones match more (`Items.matches_append_iff`).
A generated scanner has tables instead, whose states stand for what is left. They are
right if every state that can be reached agrees with what is left, which is looked up by
going through the states together with what is left in them (`explore_foldl`).
-/

open Computability

namespace MaximalMunch

/-- A pattern over classes of characters. -/
inductive Pattern (C : Type)
  | empty
  | one (c : C)
  | seq (p q : Pattern C)
  | alt (p q : Pattern C)
  | star (p : Pattern C)
deriving DecidableEq

variable {C α Q : Type}

namespace Pattern

/-- The words that a pattern matches. -/
def language (has : C → α → Bool) : Pattern C → Language α
  | empty => 1
  | one c => {w | ∃ a, has c a ∧ w = [a]}
  | seq p q => p.language has * q.language has
  | alt p q => p.language has + q.language has
  | star p => (p.language has)∗

/-- Does a pattern match the empty word? -/
def nullable : Pattern C → Bool
  | empty => true
  | one _ => false
  | seq p q => p.nullable && q.nullable
  | alt p q => p.nullable || q.nullable
  | star _ => true

/-- One pattern and then another one, which is all that is left if the first one is
empty. -/
def andThen : Pattern C → Pattern C → Pattern C
  | empty, q => q
  | p, q => seq p q

/-- The classes that a pattern may begin with, each with what is left behind. -/
def heads : Pattern C → List (C × Pattern C)
  | empty => []
  | one c => [(c, empty)]
  | seq p q =>
    p.heads.map (fun x => (x.1, x.2.andThen q)) ++ if p.nullable then q.heads else []
  | alt p q => p.heads ++ q.heads
  | star p => p.heads.map (fun x => (x.1, x.2.andThen (star p)))

/-- The characters of a word, one after the other, and then a pattern. -/
def word (cs : List C) (p : Pattern C) : Pattern C := cs.foldr (fun c q => seq (one c) q) p

variable {has : C → α → Bool} {p q : Pattern C} {a : α} {w : List α}

theorem nil_mem_mul (l m : Language α) : [] ∈ l * m ↔ [] ∈ l ∧ [] ∈ m := by
  rw [Language.mem_mul]
  constructor
  · rintro ⟨u, hu, v, hv, huv⟩
    obtain ⟨rfl, rfl⟩ := List.append_eq_nil_iff.mp huv
    exact ⟨hu, hv⟩
  · rintro ⟨hl, hm⟩
    exact ⟨[], hl, [], hm, rfl⟩

theorem cons_mem_mul (l m : Language α) :
    a :: w ∈ l * m ↔ (∃ u v, w = u ++ v ∧ a :: u ∈ l ∧ v ∈ m) ∨ ([] ∈ l ∧ a :: w ∈ m) := by
  rw [Language.mem_mul]
  constructor
  · rintro ⟨u, hu, v, hv, huv⟩
    cases u with
    | nil => exact .inr ⟨hu, huv ▸ hv⟩
    | cons b u =>
      cases huv
      exact .inl ⟨u, v, rfl, hu, hv⟩
  · rintro (⟨u, v, rfl, hu, hv⟩ | ⟨hl, hm⟩)
    · exact ⟨a :: u, hu, v, hv, rfl⟩
    · exact ⟨[], hl, a :: w, hm, rfl⟩

theorem cons_mem_kstar (l : Language α) :
    a :: w ∈ l∗ ↔ ∃ u v, w = u ++ v ∧ a :: u ∈ l ∧ v ∈ l∗ := by
  have hunfold : a :: w ∈ l∗ ↔ a :: w ∈ l * l∗ := by
    conv_lhs => rw [← Language.one_add_self_mul_kstar_eq_kstar l, Language.mem_add,
      Language.mem_one]
    exact or_iff_right (List.cons_ne_nil a w)
  rw [hunfold, cons_mem_mul]
  constructor
  · rintro (h | ⟨-, h⟩)
    · exact h
    · rw [Language.mem_kstar] at h
      obtain ⟨L, hL, hmem⟩ := h
      induction L with
      | nil => cases hL
      | cons u L ih =>
        cases u with
        | nil => exact ih hL (fun y hy => hmem y (List.mem_cons_of_mem _ hy))
        | cons b u =>
          cases hL
          exact ⟨u, L.flatten, rfl, hmem _ List.mem_cons_self,
            Language.join_mem_kstar (fun y hy => hmem y (List.mem_cons_of_mem _ hy))⟩
  · exact Or.inl

theorem nil_mem_language (p : Pattern C) : [] ∈ p.language has ↔ p.nullable := by
  induction p with
  | empty => exact iff_of_true rfl rfl
  | one c => exact iff_of_false (by rintro ⟨a, -, h⟩; cases h) Bool.false_ne_true
  | seq p q ihp ihq => rw [language, nil_mem_mul, ihp, ihq, nullable, Bool.and_eq_true]
  | alt p q ihp ihq => rw [language, Language.mem_add, ihp, ihq, nullable, Bool.or_eq_true]
  | star p => exact iff_of_true (Language.nil_mem_kstar _) rfl

theorem language_andThen (p q : Pattern C) :
    (p.andThen q).language has = p.language has * q.language has := by
  cases p with
  | empty => exact (one_mul _).symm
  | one c => rfl
  | seq p p' => rfl
  | alt p p' => rfl
  | star p => rfl

/-- Heads with another pattern behind them. -/
theorem exists_mem_map_andThen (l : List (C × Pattern C)) :
    (∃ x ∈ l.map (fun x => (x.1, x.2.andThen q)), has x.1 a ∧ w ∈ x.2.language has) ↔
      ∃ u v, w = u ++ v ∧ (∃ x ∈ l, has x.1 a ∧ u ∈ x.2.language has) ∧ v ∈ q.language has := by
  constructor
  · rintro ⟨y, hy, ha, hw⟩
    obtain ⟨x, hx, rfl⟩ := List.mem_map.mp hy
    rw [language_andThen, Language.mem_mul] at hw
    obtain ⟨u, hu, v, hv, rfl⟩ := hw
    exact ⟨u, v, rfl, ⟨x, hx, ha, hu⟩, hv⟩
  · rintro ⟨u, v, rfl, ⟨x, hx, ha, hu⟩, hv⟩
    refine ⟨_, List.mem_map_of_mem hx, ha, ?_⟩
    rw [language_andThen]
    exact Language.append_mem_mul hu hv

/-- **What a pattern matches begins with one of its heads.** -/
theorem cons_mem_language (p : Pattern C) (a : α) (w : List α) :
    a :: w ∈ p.language has ↔ ∃ x ∈ p.heads, has x.1 a ∧ w ∈ x.2.language has := by
  induction p generalizing w with
  | empty => exact iff_of_false (List.cons_ne_nil a w) (by rintro ⟨x, hx, -⟩; cases hx)
  | one c =>
    constructor
    · rintro ⟨b, hb, hw⟩
      cases hw
      exact ⟨_, List.mem_singleton_self _, hb, rfl⟩
    · rintro ⟨x, hx, ha, hw⟩
      cases List.mem_singleton.mp hx
      cases (Language.mem_one w).mp hw
      exact ⟨a, ha, rfl⟩
  | seq p q ihp ihq =>
    rw [language, cons_mem_mul, nil_mem_language, ihq, heads]
    simp only [ihp, ← exists_mem_map_andThen]
    cases p.nullable with
    | false =>
      rw [if_neg Bool.false_ne_true, List.append_nil]
      exact or_iff_left (fun h => Bool.false_ne_true h.1)
    | true =>
      rw [if_pos rfl]
      simp only [List.mem_append, or_and_right, exists_or, true_and]
  | alt p q ihp ihq =>
    rw [language, Language.mem_add, ihp, ihq, heads]
    simp only [List.mem_append, or_and_right, exists_or]
  | star p ih =>
    rw [language, cons_mem_kstar, heads, exists_mem_map_andThen]
    simp only [ih]
    rfl

/-- Any number of characters of a class. -/
theorem mem_language_star_one (c : C) (w : List α) :
    w ∈ (star (one c)).language has ↔ ∀ a ∈ w, has c a := by
  induction w with
  | nil => exact iff_of_true (Language.nil_mem_kstar _) (by intro a ha; cases ha)
  | cons a w ih =>
    rw [cons_mem_language, List.forall_mem_cons, ← ih]
    constructor
    · rintro ⟨x, hx, ha, hw⟩
      cases List.mem_singleton.mp hx
      exact ⟨ha, hw⟩
    · rintro ⟨ha, hw⟩
      exact ⟨_, List.mem_singleton_self _, ha, hw⟩

end Pattern

/-! ## The longest match -/

section Munch

variable (has : C → α → Bool) (rules : List (Pattern C))

/-- A rule matches a word. -/
def Matches (i : ℕ) (w : List α) : Prop := ∃ p, rules[i]? = some p ∧ w ∈ p.language has

/-- **The longest match** at the beginning of a text, by the first rule that has it. -/
structure Munch (text : List α) (i : ℕ) (u : List α) : Prop where
  /-- The text begins with it. -/
  begins : u <+: text
  /-- The rule matches it. -/
  matched : Matches has rules i u
  /-- No rule matches more of the text. -/
  longest : ∀ j v, v <+: text → Matches has rules j v → v.length ≤ u.length
  /-- No rule before this one matches it. -/
  first : ∀ j, Matches has rules j u → i ≤ j

/-- **A text taken apart** by longest matches, none of them empty. -/
inductive Scans : List α → List (ℕ × List α) → Prop
  | nil : Scans [] []
  | cons {u rest : List α} {i : ℕ} {found : List (ℕ × List α)} : u ≠ [] →
      Munch has rules (u ++ rest) i u → Scans rest found → Scans (u ++ rest) ((i, u) :: found)

end Munch

variable {has : C → α → Bool} {rules : List (Pattern C)} {text u v w rest : List α} {i j : ℕ}
  {found found' : List (ℕ × List α)}

/-- There is one longest match. -/
theorem Munch.unique (h : Munch has rules text i u) (h' : Munch has rules text j v) :
    i = j ∧ u = v := by
  have hlength : u.length = v.length :=
    Nat.le_antisymm (h'.longest i u h.begins h.matched) (h.longest j v h'.begins h'.matched)
  obtain ⟨r, hr⟩ := h.begins
  obtain ⟨s, hs⟩ := h'.begins
  obtain ⟨rfl, -⟩ := List.append_inj (hr.trans hs.symm) hlength
  exact ⟨Nat.le_antisymm (h.first j h'.matched) (h'.first i h.matched), rfl⟩

namespace Scans

/-- There is one way to take a text apart. -/
theorem unique (h : Scans has rules text found) (h' : Scans has rules text found') :
    found = found' := by
  induction h generalizing found' with
  | nil =>
    generalize htext : ([] : List α) = text at h'
    cases h' with
    | nil => rfl
    | cons hu _ _ => exact absurd (List.append_eq_nil_iff.mp htext.symm).1 hu
  | @cons u rest i found hu hmunch _ ih =>
    generalize htext : u ++ rest = text at h'
    cases h' with
    | nil => exact absurd (List.append_eq_nil_iff.mp htext).1 hu
    | cons _ hmunch' h' =>
      rw [htext] at hmunch
      obtain ⟨rfl, rfl⟩ := hmunch.unique hmunch'
      cases List.append_cancel_left htext
      rw [ih h']

/-- Nothing of the text is lost. -/
theorem flatten (h : Scans has rules text found) : (found.map Prod.snd).flatten = text := by
  induction h with
  | nil => rfl
  | cons _ _ _ ih => rw [List.map_cons, List.flatten_cons, ih]

end Scans

/-- A match that cannot be continued is the longest one. -/
theorem Munch.of_stop (hmatched : Matches has rules i u)
    (hfirst : ∀ j, Matches has rules j u → i ≤ j)
    (hstop : ∀ j v, v <+: rest → v ≠ [] → ¬ Matches has rules j (u ++ v)) :
    Munch has rules (u ++ rest) i u where
  begins := List.prefix_append u rest
  matched := hmatched
  longest := by
    intro j v hv h
    by_contra hlength
    obtain ⟨v', rfl⟩ := List.prefix_of_prefix_length_le (List.prefix_append u rest) hv
      (Nat.le_of_not_le hlength)
    refine hstop j v' ((List.prefix_append_right_inj u).mp hv) ?_ h
    rintro rfl
    rw [List.append_nil] at hlength
    exact hlength le_rfl
  first := hfirst

/-! ## What is left of the rules -/

/-- Rules, with what is left of them. -/
abbrev Items (C : Type) := List (ℕ × Pattern C)

namespace Items

/-- The rules, of which all is left. -/
def ofRules (rules : List (Pattern C)) : Items C := rules.zipIdx.map Prod.swap

/-- What is left behind a character. -/
def after (has : C → α → Bool) (items : Items C) (a : α) : Items C :=
  items.flatMap (fun x => (x.2.heads.filter (fun y => has y.1 a)).map (fun y => (x.1, y.2)))

/-- The first rule of which nothing has to be left. -/
def accepted (items : Items C) : Option ℕ := (items.find? (fun x => x.2.nullable)).map Prod.fst

/-- The order of the rules. -/
def Sorted (items : Items C) : Prop := items.Pairwise (fun x y => x.1 ≤ y.1)

variable {items : Items C} {a : α} {p : Pattern C}

theorem mem_after {x : ℕ × Pattern C} :
    x ∈ items.after has a ↔ ∃ p c, (x.1, p) ∈ items ∧ (c, x.2) ∈ p.heads ∧ has c a := by
  simp only [after, List.mem_flatMap, List.mem_map, List.mem_filter]
  constructor
  · rintro ⟨⟨i, p⟩, hp, ⟨c, q⟩, ⟨hq, ha⟩, rfl⟩
    exact ⟨p, c, hp, hq, ha⟩
  · rintro ⟨p, c, hp, hq, ha⟩
    exact ⟨_, hp, _, ⟨hq, ha⟩, rfl⟩

theorem mem_ofRules : (i, p) ∈ ofRules rules ↔ rules[i]? = some p := by
  rw [ofRules, List.mem_map]
  constructor
  · rintro ⟨⟨q, k⟩, hmem, hq⟩
    cases hq
    exact List.mk_mem_zipIdx_iff_getElem?.mp hmem
  · intro h
    exact ⟨(p, i), List.mk_mem_zipIdx_iff_getElem?.mpr h, rfl⟩

theorem sorted_ofRules (rules : List (Pattern C)) : (ofRules rules).Sorted := by
  have hmap : (ofRules rules).map Prod.fst = List.range rules.length := by
    rw [ofRules, List.map_map, List.range_eq_range', ← List.zipIdx_map_snd 0 rules]
    rfl
  have hlt := List.pairwise_lt_range (n := rules.length)
  rw [← hmap, List.pairwise_map] at hlt
  exact hlt.imp Nat.le_of_lt

/-- What is left stays in order. -/
theorem Sorted.after (h : items.Sorted) : (items.after has a).Sorted := by
  unfold Items.after Sorted
  rw [List.pairwise_flatMap]
  constructor
  · intro x _
    rw [List.pairwise_map]
    exact List.pairwise_of_forall (fun _ _ => le_rfl)
  · refine h.imp ?_
    intro x y hxy u hu v hv
    obtain ⟨-, -, rfl⟩ := List.mem_map.mp hu
    obtain ⟨-, -, rfl⟩ := List.mem_map.mp hv
    exact hxy

/-- **What is left behind a word.** -/
theorem exists_mem_foldl :
    (∃ p, (i, p) ∈ w.foldl (after has) items ∧ v ∈ p.language has) ↔
      ∃ p, (i, p) ∈ items ∧ w ++ v ∈ p.language has := by
  induction w generalizing items with
  | nil => rfl
  | cons a w ih =>
    rw [List.foldl_cons, ih]
    simp only [mem_after, List.cons_append, Pattern.cons_mem_language]
    constructor
    · rintro ⟨p', ⟨p, c, hp, hmem, hc⟩, hv⟩
      exact ⟨p, hp, (c, p'), hmem, hc, hv⟩
    · rintro ⟨p, hp, ⟨c, p'⟩, hmem, hc, hv⟩
      exact ⟨p', ⟨p, c, hp, hmem, hc⟩, hv⟩

/-- The first rule of which nothing is left, by all of these. -/
theorem Sorted.accepted_iff (h : items.Sorted) :
    items.accepted = some i ↔ (∃ p, (i, p) ∈ items ∧ p.nullable) ∧
      ∀ j, (∃ p, (j, p) ∈ items ∧ p.nullable) → i ≤ j := by
  unfold accepted
  induction items with
  | nil => exact iff_of_false (by intro h; cases h) (by rintro ⟨⟨p, hp, -⟩, -⟩; cases hp)
  | cons x l ih =>
    obtain ⟨hx, hsorted⟩ := List.pairwise_cons.mp h
    cases hnullable : x.2.nullable with
    | false =>
      have hmem (j : ℕ) : (∃ p, (j, p) ∈ x :: l ∧ p.nullable) ↔ ∃ p, (j, p) ∈ l ∧ p.nullable := by
        simp only [List.mem_cons, or_and_right, exists_or]
        refine or_iff_right ?_
        rintro ⟨p, rfl, hp⟩
        rw [hnullable] at hp
        cases hp
      rw [List.find?_cons_of_neg (by rw [hnullable]; exact Bool.false_ne_true)]
      simp only [hmem]
      exact ih hsorted
    | true =>
      rw [List.find?_cons_of_pos (by exact hnullable), Option.map_some, Option.some.injEq]
      constructor
      · rintro rfl
        refine ⟨⟨x.2, List.mem_cons_self, hnullable⟩, ?_⟩
        rintro j ⟨p, hp, -⟩
        rcases List.mem_cons.mp hp with rfl | hp
        · exact le_rfl
        · exact hx _ hp
      · rintro ⟨⟨p, hp, -⟩, hfirst⟩
        have hle : i ≤ x.1 := hfirst x.1 ⟨x.2, List.mem_cons_self, hnullable⟩
        rcases List.mem_cons.mp hp with rfl | hp
        · rfl
        · exact Nat.le_antisymm (hx _ hp) hle

/-- **The rules are followed by their items**: what is left behind a word is what may
come behind it. -/
theorem matches_append_iff :
    Matches has rules i (w ++ v) ↔
      ∃ p, (i, p) ∈ w.foldl (after has) (ofRules rules) ∧ v ∈ p.language has := by
  rw [exists_mem_foldl]
  simp only [mem_ofRules]
  rfl

theorem matches_iff :
    Matches has rules i w ↔
      ∃ p, (i, p) ∈ w.foldl (after has) (ofRules rules) ∧ p.nullable := by
  have h : Matches has rules i (w ++ []) ↔ _ := matches_append_iff
  rw [List.append_nil] at h
  simp only [h, Pattern.nil_mem_language]

theorem sorted_foldl (h : items.Sorted) : (w.foldl (after has) items).Sorted := by
  induction w generalizing items with
  | nil => exact h
  | cons a w ih => exact ih h.after

/-- **The first rule that matches a word.** -/
theorem accepted_foldl_iff :
    (w.foldl (after has) (ofRules rules)).accepted = some i ↔
      Matches has rules i w ∧ ∀ j, Matches has rules j w → i ≤ j := by
  rw [(sorted_foldl (sorted_ofRules rules)).accepted_iff]
  simp only [matches_iff]

theorem not_matches_of_accepted
    (h : (w.foldl (after has) (ofRules rules)).accepted = none) : ¬ Matches has rules i w := by
  rw [matches_iff]
  rintro ⟨p, hp, hnullable⟩
  rw [accepted, Option.map_eq_none_iff, List.find?_eq_none] at h
  exact h _ hp hnullable

end Items

/-! ## Tables -/

section Explore

variable (has : C → α → Bool) (next : Q → α → Q) (good known : Q → Items C → Bool)
  (letters : List α)

/-- Goes through the states that the letters lead to, together with what is left of the
rules, up to those that are known. -/
def explore : ℕ → Q → Items C → Bool
  | 0, _, _ => false
  | rounds + 1, q, items =>
    good q items && letters.all (fun a =>
      known (next q a) (items.after has a) || explore rounds (next q a) (items.after has a))

variable {has next good known letters} {alphabet : α → Prop} {rounds : ℕ} {start : Q}

/-- **A state is good**, with what is left of the rules, behind every word. The known
states have been explored too, and every character has a letter that no good state
distinguishes it from. -/
theorem explore_foldl {items : Items C}
    (hstart : explore has next good known letters rounds start items)
    (hknown : ∀ q items, known q items → ∃ m, explore has next good known letters m q items)
    (hletters : ∀ a, alphabet a → ∃ b ∈ letters, ∀ q items, good q items →
      next q a = next q b ∧ items.after has a = items.after has b)
    (hw : ∀ a ∈ w, alphabet a) : good (w.foldl next start) (w.foldl (Items.after has) items) := by
  have hgood {m : ℕ} {q : Q} {items : Items C}
      (h : explore has next good known letters m q items) : good q items := by
    cases m with
    | zero => cases h
    | succ m => exact ((Bool.and_eq_true _ _).mp h).1
  induction w generalizing rounds start items with
  | nil => exact hgood hstart
  | cons a w ih =>
    obtain ⟨ha, hw⟩ := List.forall_mem_cons.mp hw
    obtain ⟨b, hb, hsame⟩ := hletters a ha
    obtain ⟨hnext, hafter⟩ := hsame _ _ (hgood hstart)
    rw [List.foldl_cons, List.foldl_cons, hnext, hafter]
    cases rounds with
    | zero => cases hstart
    | succ rounds =>
      have hstep := List.all_eq_true.mp ((Bool.and_eq_true _ _).mp hstart).2 b hb
      rcases (Bool.or_eq_true _ _).mp hstep with hk | hexplored
      · obtain ⟨m, hm⟩ := hknown _ _ hk
        exact ih hm hw
      · exact ih hexplored hw

end Explore

end MaximalMunch
