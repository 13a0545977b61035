import Mathlib.Algebra.GroupWithZero.Nat
import Mathlib.Logic.Relation
import MiniSql.AttributeGrammar

/-!
# Shift-reduce parsers

A parser with a stack of states, driven by a table of actions and one of gotos. It
either shifts a token or reduces what is on top of the stack by a rule, and it gives
up where the stack would get higher than a limit.

What a state stands for is a set of items: a rule, how much of its right side has
been read, and what may come after it. The tables are those of a grammar if they
follow the items forwards, as in `Automaton.Forward`, and backwards, as in
`Automaton.Backward`; both are conditions on the states one by one, which can be
looked up in the tables. Then the parser accepts what the grammar derives
(`Automaton.accepts_iff`), and the grammar is unambiguous (`Automaton.Forward.unique`).
-/

open Grammar

namespace ShiftReduce

/-- What a table of actions has to say. -/
inductive Action (Q R : Type)
  | shift (q : Q)
  | reduce (r : R)
  | accept
  | error

/-- The tables of a parser. There may be no next token. -/
structure Automaton (Q R T N : Type) where
  /-- The state without anything on the stack. -/
  start : Q
  /-- What to do in a state with a next token. -/
  action : Q → Option T → Action Q R
  /-- The state after a symbol that has been reduced to. -/
  goto : Q → N → Q

/-- The stack of states and values, and the tokens that have not been read. -/
structure Config (Q T V : Type) where
  /-- The stack, the top first. -/
  stack : List (Q × V)
  /-- The tokens. -/
  input : List (T × V)

/-- How a run ends. -/
inductive Outcome
  | accepted
  | rejected
  | exhausted

variable {Q R T N V : Type}

/-- The next token. -/
def lookahead (w : List (T × V)) : Option T := w.head?.map Prod.fst

@[simp] theorem lookahead_nil : lookahead ([] : List (T × V)) = none := rfl

@[simp] theorem lookahead_cons (a : T) (v : V) (w : List (T × V)) :
    lookahead ((a, v) :: w) = some a := rfl

namespace Automaton

variable (A : Automaton Q R T N)

/-- The state on top of the stack. -/
def top (stack : List (Q × V)) : Q := (stack.head?.map Prod.fst).getD A.start

@[simp] theorem top_nil : A.top ([] : List (Q × V)) = A.start := rfl

@[simp] theorem top_cons (q : Q) (v : V) (stack : List (Q × V)) :
    A.top ((q, v) :: stack) = q := rfl

/-- A state and a value go on the stack, if it is not as high as it may be. -/
def push (limit : ℕ) (q : Q) (v : V) (stack : List (Q × V)) (w : List (T × V)) :
    Config Q T V ⊕ Outcome :=
  if stack.length < limit then .inl ⟨(q, v) :: stack, w⟩ else .inr .exhausted

variable (G : R → Rule T N V) (limit : ℕ)

/-- One step: a shift or a reduction, or the end. -/
def step (c : Config Q T V) : Config Q T V ⊕ Outcome :=
  match A.action (A.top c.stack) (lookahead c.input), c.input with
  | .shift q, (_, v) :: w => push limit q v c.stack w
  | .shift _, [] => .inr .rejected
  | .reduce r, w =>
    let below := c.stack.drop (G r).rhs.length
    push limit (A.goto (A.top below) (G r).lhs)
      ((G r).value ((c.stack.take (G r).rhs.length).map Prod.snd).reverse) below w
  | .accept, _ => .inr .accepted
  | .error, _ => .inr .rejected

/-- A run of at most the given number of steps: where it ends, and how. -/
def run : ℕ → Config Q T V → Option (Config Q T V × Outcome)
  | 0, _ => none
  | rounds + 1, c =>
    match A.step G limit c with
    | .inl c' => run rounds c'
    | .inr o => some (c, o)

/-- Steps that are made one after the other. -/
abbrev Steps : Config Q T V → Config Q T V → Prop :=
  Relation.ReflTransGen (fun c c' => A.step G limit c = .inl c')

end Automaton

variable {A : Automaton Q R T N} {G : R → Rule T N V} {limit : ℕ} {S : N}

/-! ## Steps -/

namespace Automaton

variable {c c' : Config Q T V} {o : Outcome} {stack : List (Q × V)} {w : List (T × V)}

theorem step_shift {q : Q} {a : T} {v : V}
    (h : A.action (A.top stack) (some a) = .shift q) :
    A.step G limit ⟨stack, (a, v) :: w⟩ = push limit q v stack w := by
  simp only [step, lookahead_cons, h]

theorem step_reduce {r : R} (h : A.action (A.top stack) (lookahead w) = .reduce r) :
    A.step G limit ⟨stack, w⟩ =
      push limit (A.goto (A.top (stack.drop (G r).rhs.length)) (G r).lhs)
        ((G r).value ((stack.take (G r).rhs.length).map Prod.snd).reverse)
        (stack.drop (G r).rhs.length) w := by
  simp only [step, h]

theorem step_accept (h : A.action (A.top stack) (lookahead w) = .accept) :
    A.step G limit ⟨stack, w⟩ = .inr .accepted := by
  simp only [step, h]

theorem step_error (h : A.action (A.top stack) (lookahead w) = .error) :
    A.step G limit ⟨stack, w⟩ = .inr .rejected := by
  simp only [step, h]

theorem push_of_lt {q : Q} {v : V} (h : stack.length < limit) :
    push limit q v stack w = .inl ⟨(q, v) :: stack, w⟩ := if_pos h

theorem push_of_le {q : Q} {v : V} (h : limit ≤ stack.length) :
    push limit q v stack w = .inr .exhausted := if_neg (Nat.not_lt_of_le h)

/-- What a run with an end gives, it gives with more rounds too. -/
theorem run_succ {rounds : ℕ} (h : A.run G limit rounds c = some (c', o)) :
    A.run G limit (rounds + 1) c = some (c', o) := by
  induction rounds generalizing c with
  | zero => cases h
  | succ rounds ih =>
    unfold run at h ⊢
    cases hstep : A.step G limit c with
    | inl c₁ =>
      rw [hstep] at h
      exact ih h
    | inr o' =>
      rw [hstep] at h
      exact h

theorem run_mono {rounds rounds' : ℕ} (hle : rounds ≤ rounds')
    (h : A.run G limit rounds c = some (c', o)) : A.run G limit rounds' c = some (c', o) := by
  induction hle with
  | refl => exact h
  | step _ ih => exact run_succ ih

/-- A run ends where it gets to without further steps. -/
theorem run_of_steps {rounds : ℕ} {c₁ c₂ : Config Q T V} {o' : Outcome}
    (hsteps : A.Steps G limit c c₁) (hend : A.step G limit c₁ = .inr o)
    (h : A.run G limit rounds c = some (c₂, o')) : c₂ = c₁ ∧ o' = o := by
  induction hsteps using Relation.ReflTransGen.head_induction_on generalizing rounds with
  | refl =>
    cases rounds with
    | zero => cases h
    | succ rounds =>
      unfold run at h
      rw [hend] at h
      cases h
      exact ⟨rfl, rfl⟩
  | head hstep _ ih =>
    cases rounds with
    | zero => cases h
    | succ rounds =>
      unfold run at h
      rw [hstep] at h
      exact ih h

/-- Steps to an end make a run. -/
theorem exists_run_of_steps {c₁ : Config Q T V} (hsteps : A.Steps G limit c c₁)
    (hend : A.step G limit c₁ = .inr o) : ∃ rounds, A.run G limit rounds c = some (c₁, o) := by
  induction hsteps using Relation.ReflTransGen.head_induction_on with
  | refl =>
    refine ⟨1, ?_⟩
    unfold run
    rw [hend]
  | head hstep _ ih =>
    obtain ⟨rounds, h⟩ := ih
    refine ⟨rounds + 1, ?_⟩
    unfold run
    rw [hstep]
    exact h

/-- A parser gets to one end only. -/
theorem eq_of_steps {c₁ c₂ : Config Q T V} {o₁ o₂ : Outcome}
    (h₁ : A.Steps G limit c c₁) (hend₁ : A.step G limit c₁ = .inr o₁)
    (h₂ : A.Steps G limit c c₂) (hend₂ : A.step G limit c₂ = .inr o₂) :
    c₁ = c₂ ∧ o₁ = o₂ := by
  obtain ⟨rounds, hrun⟩ := exists_run_of_steps h₁ hend₁
  exact run_of_steps h₂ hend₂ hrun

end Automaton

/-! ## Items -/

/-- The right side of a rule, or, for the whole input, the start symbol. -/
def rhs (G : R → Rule T N V) (S : N) : Option R → List (T ⊕ N)
  | none => [.inr S]
  | some r => (G r).rhs

/-- What may be the next token before some symbols and what comes after them. -/
def Next (G : R → Rule T N V) : List (T ⊕ N) → Option T → Option T → Prop
  | [], after, b => b = after
  | X :: _, _, b => ∃ a, b = some a ∧ Starts G X a

theorem next_lookahead (hG : ∀ r, (G r).rhs ≠ []) {β : List (T ⊕ N)} {w rest : List (T × V)}
    {vs : List V} {d : ℕ} (h : Derives G β w vs d) :
    Next G β (lookahead rest) (lookahead (w ++ rest)) := by
  cases β with
  | nil =>
    cases h
    rfl
  | cons X β =>
    obtain ⟨a, v, w', rfl, hstarts⟩ := h.exists_starts hG
    exact ⟨a, rfl, hstarts⟩

variable {item : Q → Option R → ℕ → Option T → Prop}

/-- **The tables follow the items forwards.** An item says of a state that so much of
the right side of a rule may have been read last, and what may come after the rule. -/
structure Automaton.Forward (A : Automaton Q R T N) (G : R → Rule T N V) (S : N)
    (item : Q → Option R → ℕ → Option T → Prop) : Prop where
  /-- At the start the whole input is still to be read, whatever comes after it. -/
  start : ∀ after, item A.start none 0 after
  /-- A token is shifted. -/
  token {q : Q} {ρ : Option R} {α β : List (T ⊕ N)} {a : T} {after : Option T} :
    item q ρ α.length after → rhs G S ρ = α ++ .inl a :: β →
      ∃ q', A.action q (some a) = .shift q' ∧ item q' ρ (α.length + 1) after
  /-- A symbol is gone on with. -/
  goto {q : Q} {ρ : Option R} {α β : List (T ⊕ N)} {B : N} {after : Option T} :
    item q ρ α.length after → rhs G S ρ = α ++ .inr B :: β →
      item (A.goto q B) ρ (α.length + 1) after
  /-- A symbol may begin with each of its rules. -/
  closure {q : Q} {ρ : Option R} {α β : List (T ⊕ N)} {r : R} {after next : Option T} :
    item q ρ α.length after → rhs G S ρ = α ++ .inr (G r).lhs :: β → Next G β after next →
      item q (some r) 0 next
  /-- A rule that has been read is reduced. -/
  reduce {q : Q} {r : R} {after : Option T} :
    item q (some r) (G r).rhs.length after → A.action q after = .reduce r
  /-- At the end of the input it is accepted. -/
  accept {q : Q} : item q none 1 none → A.action q none = .accept
  /-- Something that comes after the input is an error. -/
  stop {q : Q} {a : T} : item q none 1 (some a) → A.action q (some a) = .error

namespace Automaton.Forward

/-- A rule that has been read is reduced. -/
theorem step_rule (hA : A.Forward G S item) {r : R} {us : List V} {above stack : List (Q × V)}
    {w : List (T × V)} (hvalues : above.map Prod.snd = us.reverse)
    (hlength : us.length = (G r).rhs.length)
    (hcomplete : item (A.top (above ++ stack)) (some r) (G r).rhs.length (lookahead w))
    (hroom : stack.length < limit) :
    A.step G limit ⟨above ++ stack, w⟩ =
      .inl ⟨(A.goto (A.top stack) (G r).lhs, (G r).value us) :: stack, w⟩ := by
  have habove : above.length = (G r).rhs.length := by
    have h := congrArg List.length hvalues
    rwa [List.length_map, List.length_reverse, hlength] at h
  rw [step_reduce (hA.reduce hcomplete), ← habove, List.drop_left, List.take_left, hvalues,
    List.reverse_reverse, push_of_lt hroom]

/-- **What is derived is read**: from a state where some symbols of a right side are
still to come, the parser reads the tokens that they stand for, and puts their
values on the stack. The induction is on the derivation; a rule of it is read on its
own first, and then reduced. -/
theorem steps (hA : A.Forward G S item) (hG : ∀ r, (G r).rhs ≠ []) {β : List (T ⊕ N)}
    {w : List (T × V)} {vs : List V} {d : ℕ} (h : Derives G β w vs d) {ρ : Option R}
    {α : List (T ⊕ N)} {stack : List (Q × V)} {rest : List (T × V)} {after : Option T}
    (hrhs : rhs G S ρ = α ++ β) (hitem : item (A.top stack) ρ α.length after)
    (hafter : lookahead rest = after) (hlimit : stack.length + d ≤ limit) :
    ∃ above, A.Steps G limit ⟨stack, w ++ rest⟩ ⟨above ++ stack, rest⟩ ∧
      above.map Prod.snd = vs.reverse ∧
      item (A.top (above ++ stack)) ρ (rhs G S ρ).length after := by
  induction h generalizing ρ α stack rest after with
  | nil =>
    rw [List.append_nil] at hrhs
    exact ⟨[], .refl, rfl, hrhs ▸ hitem⟩
  | @token a v β w vs d _ ih =>
    obtain ⟨q, hshift, hitem'⟩ := hA.token hitem hrhs
    have hstep : A.step G limit ⟨stack, (a, v) :: (w ++ rest)⟩ =
        .inl ⟨(q, v) :: stack, w ++ rest⟩ := by
      rw [step_shift hshift, push_of_lt (by omega)]
    have hrhs' : rhs G S ρ = (α ++ [.inl a]) ++ β := by rw [hrhs, List.append_assoc]; rfl
    have hnext : item (A.top ((q, v) :: stack)) ρ (α ++ [Sum.inl a]).length after := by
      rwa [List.length_append]
    have hroom : ((q, v) :: stack).length + d ≤ limit := by rw [List.length_cons]; omega
    obtain ⟨above, hsteps, hvalues, hlast⟩ := ih hrhs' hnext hafter hroom
    refine ⟨above ++ [(q, v)], ?_, ?_, ?_⟩
    · rw [List.append_assoc]
      exact .head hstep hsteps
    · rw [List.map_append, hvalues, List.reverse_cons]
      rfl
    · rwa [List.append_assoc]
  | @rule r β u w us vs e d hu hw ihu ih =>
    have hstart : item (A.top stack) (some r) ([] : List (T ⊕ N)).length (lookahead (w ++ rest)) :=
      hA.closure hitem hrhs (hafter ▸ next_lookahead hG hw)
    have hroom : stack.length + e ≤ limit := by omega
    obtain ⟨above, hread, hvalues, hcomplete⟩ := ihu (List.nil_append _).symm hstart rfl hroom
    have hstep := hA.step_rule hvalues hu.length_values hcomplete
      (show stack.length < limit by omega)
    have hrhs' : rhs G S ρ = (α ++ [.inr (G r).lhs]) ++ β := by rw [hrhs, List.append_assoc]; rfl
    have hnext : item (A.top ((A.goto (A.top stack) (G r).lhs, (G r).value us) :: stack)) ρ
        (α ++ [Sum.inr (G r).lhs]).length after := by
      rw [List.length_append]
      exact hA.goto hitem hrhs
    have hroom' : (stack.length + 1) + d ≤ limit := by omega
    obtain ⟨above', hsteps, hvalues', hlast⟩ := ih hrhs' hnext hafter hroom'
    refine ⟨above' ++ [(A.goto (A.top stack) (G r).lhs, (G r).value us)], ?_, ?_, ?_⟩
    · rw [List.append_assoc, List.append_assoc]
      exact hread.trans (.head hstep hsteps)
    · rw [List.map_append, hvalues', List.reverse_cons]
      rfl
    · rwa [List.append_assoc]

/-- **What needs more places than there are exhausts the stack.** -/
theorem exhausts (hA : A.Forward G S item) (hG : ∀ r, (G r).rhs ≠ []) {β : List (T ⊕ N)}
    {w : List (T × V)} {vs : List V} {d : ℕ} (h : Derives G β w vs d) {ρ : Option R}
    {α : List (T ⊕ N)} {stack : List (Q × V)} {rest : List (T × V)} {after : Option T}
    (hrhs : rhs G S ρ = α ++ β) (hitem : item (A.top stack) ρ α.length after)
    (hafter : lookahead rest = after) (hroom : stack.length ≤ limit)
    (hlimit : limit < stack.length + d) :
    ∃ c, A.Steps G limit ⟨stack, w ++ rest⟩ c ∧ A.step G limit c = .inr .exhausted := by
  induction h generalizing ρ α stack rest after with
  | nil => omega
  | @token a v β w vs d _ ih =>
    obtain ⟨q, hshift, hitem'⟩ := hA.token hitem hrhs
    have hstep : A.step G limit ⟨stack, (a, v) :: (w ++ rest)⟩ =
        push limit q v stack (w ++ rest) := step_shift hshift
    by_cases hfull : limit ≤ stack.length
    · exact ⟨_, .refl, hstep.trans (push_of_le hfull)⟩
    · rw [push_of_lt (Nat.lt_of_not_le hfull)] at hstep
      have hrhs' : rhs G S ρ = (α ++ [.inl a]) ++ β := by rw [hrhs, List.append_assoc]; rfl
      have hnext : item (A.top ((q, v) :: stack)) ρ (α ++ [Sum.inl a]).length after := by
        rwa [List.length_append]
      have hroom' : ((q, v) :: stack).length ≤ limit := Nat.lt_of_not_le hfull
      have hlimit' : limit < ((q, v) :: stack).length + d := by rw [List.length_cons]; omega
      obtain ⟨c, hsteps, hend⟩ := ih hrhs' hnext hafter hroom' hlimit'
      exact ⟨c, .head hstep hsteps, hend⟩
  | @rule r β u w us vs e d hu hw ihu ih =>
    have hstart : item (A.top stack) (some r) ([] : List (T ⊕ N)).length (lookahead (w ++ rest)) :=
      hA.closure hitem hrhs (hafter ▸ next_lookahead hG hw)
    rw [List.append_assoc]
    by_cases hdeep : limit < stack.length + e
    · exact ihu (List.nil_append _).symm hstart rfl hroom hdeep
    · obtain ⟨above, hread, hvalues, hcomplete⟩ :=
        hA.steps hG hu (List.nil_append _).symm hstart rfl (Nat.le_of_not_lt hdeep)
      have hpos : 1 ≤ e := (List.length_pos_iff.mpr (hG r)).trans_le hu.length_le_height
      have hstep := hA.step_rule hvalues hu.length_values hcomplete
        (show stack.length < limit by omega)
      have hrhs' : rhs G S ρ = (α ++ [.inr (G r).lhs]) ++ β := by
        rw [hrhs, List.append_assoc]
        rfl
      have hnext : item (A.top ((A.goto (A.top stack) (G r).lhs, (G r).value us) :: stack)) ρ
          (α ++ [Sum.inr (G r).lhs]).length after := by
        rw [List.length_append]
        exact hA.goto hitem hrhs
      have hroom' : stack.length + 1 ≤ limit := by omega
      have hlimit' : limit < (stack.length + 1) + d := by omega
      obtain ⟨c, hsteps, hend⟩ := ih hrhs' hnext hafter hroom' hlimit'
      exact ⟨c, hread.trans (.head hstep hsteps), hend⟩

variable {u u' rest rest' : List (T × V)} {t t' : V} {d d' : ℕ}

/-- What is derived from the start symbol is read, whatever comes after it. -/
theorem read (hA : A.Forward G S item) (hG : ∀ r, (G r).rhs ≠ [])
    (h : Derives G [.inr S] u [t] d) (hd : d ≤ limit) (rest : List (T × V)) :
    ∃ q, A.Steps G limit ⟨[], u ++ rest⟩ ⟨[(q, t)], rest⟩ ∧ item q none 1 (lookahead rest) := by
  have hroom : ([] : List (Q × V)).length + d ≤ limit := by rwa [List.length_nil, Nat.zero_add]
  have hrhs : rhs G S none = ([] : List (T ⊕ N)) ++ [.inr S] := rfl
  have hstart : item (A.top ([] : List (Q × V))) none ([] : List (T ⊕ N)).length
      (lookahead rest) := hA.start _
  obtain ⟨above, hsteps, hvalues, hitem⟩ := hA.steps hG h hrhs hstart rfl hroom
  rw [List.append_nil] at hsteps hitem
  obtain ⟨⟨q, v⟩, rfl, hv⟩ := List.map_eq_singleton_iff.mp hvalues
  cases hv
  exact ⟨q, hsteps, hitem⟩

/-- That is where the parser stops: it accepts at the end of the input. -/
theorem step_end (hA : A.Forward G S item) {q : Q} (h : item q none 1 (lookahead rest)) :
    A.step G limit ⟨[(q, t)], rest⟩ =
      .inr (if rest = [] then .accepted else .rejected) := by
  cases rest with
  | nil => exact step_accept (hA.accept h)
  | cons x rest => exact step_error (hA.stop h)

/-- **The grammar is unambiguous**, and no input has two beginnings that are derived
from the start symbol. -/
theorem unique (hA : A.Forward G S item) (hG : ∀ r, (G r).rhs ≠ [])
    (h : Derives G [.inr S] u [t] d) (h' : Derives G [.inr S] u' [t'] d')
    (heq : u ++ rest = u' ++ rest') : u = u' ∧ t = t' := by
  obtain ⟨q, hsteps, hitem⟩ := hA.read hG h (Nat.le_max_left d d') rest
  obtain ⟨q', hsteps', hitem'⟩ := hA.read hG h' (Nat.le_max_right d d') rest'
  rw [← heq] at hsteps'
  obtain ⟨hc, -⟩ := eq_of_steps hsteps (hA.step_end hitem) hsteps' (hA.step_end hitem')
  cases hc
  exact ⟨List.append_cancel_right heq, rfl⟩

end Automaton.Forward

/-! ## Stacks -/

/-- **The tables follow the items backwards**, in the states that have an item. -/
structure Automaton.Backward (A : Automaton Q R T N) (G : R → Rule T N V) (S : N)
    (item : Q → Option R → ℕ → Option T → Prop) : Prop where
  /-- At the start, the whole input is still to be read, and nothing has been read. -/
  start : ∃ after, item A.start none 0 after
  /-- Nothing has been read at the start. -/
  fresh {ρ : Option R} {i : ℕ} {after : Option T} : ¬ item A.start ρ (i + 1) after
  /-- The whole input is still to be read at the start only. -/
  begins {q : Q} {after : Option T} : item q none 0 after → q = A.start
  /-- What has been read in a state that a shift leads to ends with its token. -/
  shift {q q' : Q} {ρ : Option R} {i : ℕ} {a : T} {after : Option T} :
    item q ρ i after → A.action q (some a) = .shift q' →
      q' ≠ A.start ∧ (∃ ρ i after, item q' ρ i after) ∧
      ∀ ρ i after, item q' ρ (i + 1) after →
        (rhs G S ρ)[i]? = some (.inl a) ∧ ∃ after, item q ρ i after
  /-- What has been read in a state that a goto leads to ends with its symbol. -/
  goto {q : Q} {r : R} {after : Option T} : item q (some r) 0 after →
      A.goto q (G r).lhs ≠ A.start ∧ (∃ ρ i after, item (A.goto q (G r).lhs) ρ i after) ∧
      ∀ ρ i after, item (A.goto q (G r).lhs) ρ (i + 1) after →
        (rhs G S ρ)[i]? = some (.inr (G r).lhs) ∧ ∃ after, item q ρ i after
  /-- Only a rule that has been read is reduced. -/
  reduce {q : Q} {ρ : Option R} {r : R} {i : ℕ} {after next : Option T} :
    item q ρ i after → A.action q next = .reduce r →
      ∃ after, item q (some r) (G r).rhs.length after
  /-- The input is accepted at its end only. -/
  accept {q : Q} {ρ : Option R} {i : ℕ} {after next : Option T} :
    item q ρ i after → A.action q next = .accept → next = none ∧ ∃ after, item q none 1 after

/-- **What a stack stands for**: symbols, the top first, and the tokens that have been
read. -/
inductive Spells (A : Automaton Q R T N) (G : R → Rule T N V) (limit : ℕ)
    (item : Q → Option R → ℕ → Option T → Prop) :
    List (Q × V) → List (T ⊕ N) → List (T × V) → Prop
  | nil : Spells A G limit item [] [] []
  | shift {stack : List (Q × V)} {γ : List (T ⊕ N)} {w : List (T × V)} {q : Q} {a : T} {v : V} :
      Spells A G limit item stack γ w → A.action (A.top stack) (some a) = .shift q →
        stack.length < limit → Spells A G limit item ((q, v) :: stack) (.inl a :: γ) (w ++ [(a, v)])
  | reduce {stack : List (Q × V)} {γ : List (T ⊕ N)} {w u : List (T × V)} {r : R} {us : List V}
      {d : ℕ} {after : Option T} :
      Spells A G limit item stack γ w → item (A.top stack) (some r) 0 after →
        Derives G (G r).rhs u us d → stack.length + d ≤ limit → stack.length < limit →
        Spells A G limit item ((A.goto (A.top stack) (G r).lhs, (G r).value us) :: stack)
          (.inr (G r).lhs :: γ) (w ++ u)

namespace Spells

open Automaton

variable {stack : List (Q × V)} {γ : List (T ⊕ N)} {w : List (T × V)}

theorem length_le (h : Spells A G limit item stack γ w) : stack.length ≤ limit := by
  cases h with
  | nil => exact Nat.zero_le _
  | shift _ _ hroom => exact hroom
  | reduce _ _ _ _ hroom => exact hroom

/-- Every place of the stack has a token of its own. -/
theorem length_le_length (hG : ∀ r, (G r).rhs ≠ []) (h : Spells A G limit item stack γ w) :
    stack.length ≤ w.length := by
  induction h with
  | nil => exact le_rfl
  | shift _ _ _ ih =>
    rw [List.length_cons, List.length_append]
    exact Nat.succ_le_succ ih
  | @reduce _ _ _ u r _ _ _ _ _ hu _ _ ih =>
    have hpos : 1 ≤ u.length :=
      (List.length_pos_iff.mpr (hG r)).trans_le (hu.length_le_length hG)
    rw [List.length_cons, List.length_append]
    omega

/-- The state on top has an item. -/
theorem exists_item (hB : A.Backward G S item) (h : Spells A G limit item stack γ w) :
    ∃ ρ i after, item (A.top stack) ρ i after := by
  induction h with
  | nil =>
    obtain ⟨after, hstart⟩ := hB.start
    exact ⟨none, 0, after, hstart⟩
  | shift _ hshift _ ih =>
    obtain ⟨ρ, i, after, hitem⟩ := ih
    exact (hB.shift hitem hshift).2.1
  | reduce _ hitem _ _ _ _ => exact (hB.goto hitem).2.1

/-- Only the empty stack is at the start. -/
theorem eq_nil (hB : A.Backward G S item) (h : Spells A G limit item stack γ w)
    (htop : A.top stack = A.start) : stack = [] := by
  cases h with
  | nil => rfl
  | shift h hshift _ =>
    obtain ⟨ρ, i, after, hitem⟩ := h.exists_item hB
    exact ((hB.shift hitem hshift).1 htop).elim
  | reduce _ hitem _ _ _ => exact ((hB.goto hitem).1 htop).elim

/-- **What an item says has been read is on top of the stack**, with a derivation of
it, and below it is a state where it was still to be read. -/
theorem pop (hB : A.Backward G S item) (h : Spells A G limit item stack γ w) {ρ : Option R}
    {α β : List (T ⊕ N)} {after : Option T} (hitem : item (A.top stack) ρ α.length after)
    (hrhs : rhs G S ρ = α ++ β) :
    ∃ above below γ' w' u us d after', stack = above ++ below ∧ γ = α.reverse ++ γ' ∧
      w = w' ++ u ∧ Spells A G limit item below γ' w' ∧ Derives G α u us d ∧
      above.map Prod.snd = us.reverse ∧ item (A.top below) ρ 0 after' ∧
      below.length + d ≤ limit := by
  induction α using List.reverseRecOn generalizing stack γ w β after with
  | nil =>
    exact ⟨[], stack, γ, w, [], [], 0, after, rfl, rfl, (List.append_nil w).symm, h, .nil, rfl,
      hitem, h.length_le⟩
  | append_singleton α X ih =>
    rw [List.length_append] at hitem
    rw [List.append_assoc] at hrhs
    have hX : (rhs G S ρ)[α.length]? = some X := by
      rw [hrhs, List.getElem?_append_right le_rfl, Nat.sub_self]
      rfl
    cases h with
    | nil => exact (hB.fresh hitem).elim
    | @shift stack γ w q a v h hshift hroom =>
      obtain ⟨ρ', i', after', hstate⟩ := h.exists_item hB
      obtain ⟨hsymbol, after', hbefore⟩ := (hB.shift hstate hshift).2.2 _ _ _ hitem
      cases Option.some.inj (hX.symm.trans hsymbol)
      obtain ⟨above, below, γ', w', u, us, d, after', rfl, rfl, rfl, hbelow, hu, hvalues, hitem',
        hlimit⟩ := ih h hbefore hrhs
      have hlength : above.length = α.length := by
        have h := congrArg List.length hvalues
        rwa [List.length_map, List.length_reverse, hu.length_values] at h
      refine ⟨(q, v) :: above, below, γ', w', u ++ [(a, v)], us ++ [v], _, after', rfl, ?_,
        (List.append_assoc ..), hbelow, hu.append (.token .nil), ?_, hitem', ?_⟩
      · rw [List.reverse_append]
        rfl
      · rw [List.reverse_append, List.map_cons, hvalues]
        rfl
      · rw [List.length_append] at hroom
        omega
    | @reduce stack γ w u' r us' d' after₀ h hstart hu' hd' hroom =>
      obtain ⟨hsymbol, after', hbefore⟩ := (hB.goto hstart).2.2 _ _ _ hitem
      cases Option.some.inj (hX.symm.trans hsymbol)
      obtain ⟨above, below, γ', w', u, us, d, after', rfl, rfl, rfl, hbelow, hu, hvalues, hitem',
        hlimit⟩ := ih h hbefore hrhs
      have hlength : above.length = α.length := by
        have h := congrArg List.length hvalues
        rwa [List.length_map, List.length_reverse, hu.length_values] at h
      have hone : Derives G [.inr (G r).lhs] u' [(G r).value us'] (max d' 1) := by
        have h := Derives.rule hu' (.nil : Derives G [] [] [] 0)
        rwa [List.append_nil] at h
      refine ⟨_ :: above, below, γ', w', u ++ u', us ++ [(G r).value us'], _, after', rfl, ?_,
        (List.append_assoc ..), hbelow, hu.append hone, ?_, hitem', ?_⟩
      · rw [List.reverse_append]
        rfl
      · rw [List.reverse_append, List.map_cons, hvalues]
        rfl
      · rw [List.length_append] at hroom hd'
        omega

/-- A rule that has been read is on top of the stack, above the state where it was
still to be read. -/
theorem pop_rule (hB : A.Backward G S item) (h : Spells A G limit item stack γ w) {r : R}
    {after : Option T} (hitem : item (A.top stack) (some r) (G r).rhs.length after) :
    (G r).rhs.length ≤ stack.length ∧
      (∃ γ' w', Spells A G limit item (stack.drop (G r).rhs.length) γ' w') ∧
      ∃ after, item (A.top (stack.drop (G r).rhs.length)) (some r) 0 after := by
  obtain ⟨above, below, γ', w', u, us, d, after', rfl, -, -, hbelow, hu, hvalues, hstart, -⟩ :=
    h.pop hB hitem (List.append_nil _).symm
  have hlength : above.length = (G r).rhs.length := by
    have h := congrArg List.length hvalues
    rwa [List.length_map, List.length_reverse, hu.length_values] at h
  rw [← hlength, List.drop_left, List.length_append]
  exact ⟨Nat.le_add_right _ _, ⟨γ', w', hbelow⟩, after', hstart⟩

/-- **One step keeps what the stack stands for**: what has been read, with what has
not been read, is the input. -/
theorem step (hB : A.Backward G S item) (h : Spells A G limit item stack γ w)
    {input : List (T × V)} {c : Config Q T V}
    (hstep : A.step G limit ⟨stack, input⟩ = .inl c) :
    ∃ γ' w', Spells A G limit item c.stack γ' w' ∧ w' ++ c.input = w ++ input ∧
      ((∃ a v, input = (a, v) :: c.input ∧ γ' = .inl a :: γ) ∨
        ∃ r γ₀, input = c.input ∧ γ = (G r).rhs.reverse ++ γ₀ ∧ γ' = .inr (G r).lhs :: γ₀) := by
  obtain ⟨ρ, i, after, hstate⟩ := h.exists_item hB
  cases haction : A.action (A.top stack) (lookahead input) with
  | shift q =>
    cases input with
    | nil =>
      rw [lookahead_nil] at haction
      simp only [Automaton.step, lookahead_nil, haction, reduceCtorEq] at hstep
    | cons x input =>
      obtain ⟨a, v⟩ := x
      rw [step_shift haction, push] at hstep
      split at hstep
      · rename_i hroom
        cases hstep
        exact ⟨_, _, h.shift haction hroom, List.append_assoc .., .inl ⟨a, v, rfl, rfl⟩⟩
      · cases hstep
  | reduce r =>
    obtain ⟨after', hitem⟩ := hB.reduce hstate haction
    obtain ⟨above, below, γ₀, w', u, us, d, after', rfl, rfl, rfl, hbelow, hu, hvalues, hstart,
      hlimit⟩ := h.pop hB hitem (List.append_nil _).symm
    have hlength : above.length = (G r).rhs.length := by
      have h := congrArg List.length hvalues
      rwa [List.length_map, List.length_reverse, hu.length_values] at h
    rw [step_reduce haction, ← hlength, List.drop_left, List.take_left, hvalues,
      List.reverse_reverse, push] at hstep
    split at hstep
    · rename_i hroom
      cases hstep
      exact ⟨_, _, hbelow.reduce hstart hu hlimit hroom, by rw [List.append_assoc],
        .inr ⟨r, γ₀, rfl, rfl, rfl⟩⟩
    · cases hstep
  | accept =>
    rw [step_accept haction] at hstep
    cases hstep
  | error =>
    rw [step_error haction] at hstep
    cases hstep

/-- The whole input is on the stack, with a derivation of it. -/
theorem derives (hB : A.Backward G S item) (h : Spells A G limit item stack γ w)
    {after : Option T} (hitem : item (A.top stack) none 1 after) :
    ∃ q t d, stack = [(q, t)] ∧ Derives G [.inr S] w [t] d ∧ d ≤ limit := by
  have hone : item (A.top stack) none ([.inr S] : List (T ⊕ N)).length after := hitem
  have hrhs : rhs G S none = [.inr S] ++ [] := rfl
  obtain ⟨above, below, γ₀, w', u, us, d, after', rfl, rfl, rfl, hbelow, hu, hvalues, hstart,
    hlimit⟩ := h.pop hB hone hrhs
  have hbottom : below = [] := hbelow.eq_nil hB (hB.begins hstart)
  subst hbottom
  cases hbelow
  have hlength : us.length = 1 := hu.length_values
  obtain ⟨t, rfl⟩ := List.length_eq_one_iff.mp hlength
  obtain ⟨⟨q, v⟩, rfl, hv⟩ := List.map_eq_singleton_iff.mp hvalues
  subst hv
  refine ⟨q, v, d, rfl, hu, ?_⟩
  simpa only [List.length_nil, Nat.zero_add] using hlimit

/-- **How a run may end**: it accepts what is derived from the start symbol, and it
gives up only where there are more tokens than places. -/
theorem step_end (hB : A.Backward G S item) (hG : ∀ r, (G r).rhs ≠ [])
    (h : Spells A G limit item stack γ w) {input : List (T × V)} {o : Outcome}
    (hstep : A.step G limit ⟨stack, input⟩ = .inr o) :
    (o = .accepted → input = [] ∧ ∃ after, item (A.top stack) none 1 after) ∧
      (o = .exhausted → limit < (w ++ input).length) := by
  obtain ⟨ρ, i, after, hstate⟩ := h.exists_item hB
  cases haction : A.action (A.top stack) (lookahead input) with
  | shift q =>
    cases input with
    | nil =>
      rw [lookahead_nil] at haction
      simp only [Automaton.step, lookahead_nil, haction, Sum.inr.injEq] at hstep
      subst hstep
      exact ⟨Outcome.noConfusion, Outcome.noConfusion⟩
    | cons x input =>
      obtain ⟨a, v⟩ := x
      rw [step_shift haction, push] at hstep
      split at hstep
      · cases hstep
      · rename_i hroom
        cases hstep
        refine ⟨Outcome.noConfusion, fun _ => ?_⟩
        have hle := h.length_le_length hG
        rw [List.length_append, List.length_cons]
        omega
  | reduce r =>
    obtain ⟨after', hitem⟩ := hB.reduce hstate haction
    obtain ⟨above, below, γ₀, w', u, us, d, after', rfl, rfl, rfl, hbelow, hu, hvalues, hstart,
      hlimit⟩ := h.pop hB hitem (List.append_nil _).symm
    have hlength : above.length = (G r).rhs.length := by
      have h := congrArg List.length hvalues
      rwa [List.length_map, List.length_reverse, hu.length_values] at h
    have hpos : 1 ≤ (G r).rhs.length := List.length_pos_iff.mpr (hG r)
    have hle := hu.length_le_height
    rw [step_reduce haction, ← hlength, List.drop_left, push_of_lt (by omega)] at hstep
    cases hstep
  | accept =>
    rw [step_accept haction] at hstep
    cases hstep
    obtain ⟨hend, hitem⟩ := hB.accept hstate haction
    refine ⟨fun _ => ⟨?_, hitem⟩, Outcome.noConfusion⟩
    cases input with
    | nil => rfl
    | cons x input => cases hend
  | error =>
    rw [step_error haction] at hstep
    cases hstep
    exact ⟨Outcome.noConfusion, Outcome.noConfusion⟩

end Spells

/-! ## Runs -/

section Runs

variable {weight : T ⊕ N → ℕ} {heaviest : ℕ}

/-- What is left to do: every token is still to be shifted, and what has been read
gets lighter with every reduction. -/
def remaining (weight : T ⊕ N → ℕ) (heaviest : ℕ) (γ : List (T ⊕ N)) (input : List (T × V)) :
    ℕ :=
  (heaviest + 1) * input.length + (γ.map weight).sum

/-- **A run ends**, and at its end the stack stands for what has been read. -/
theorem exists_end (hB : A.Backward G S item) (htoken : ∀ a, weight (.inl a) ≤ heaviest)
    (hrule : ∀ r, weight (.inr (G r).lhs) < ((G r).rhs.map weight).sum)
    {stack : List (Q × V)} {γ : List (T ⊕ N)} {w : List (T × V)}
    (h : Spells A G limit item stack γ w) (input : List (T × V)) :
    ∃ c o γ' w',
      A.run G limit (remaining weight heaviest γ input + 1) ⟨stack, input⟩ = some (c, o) ∧
      A.Steps G limit ⟨stack, input⟩ c ∧ A.step G limit c = .inr o ∧
      Spells A G limit item c.stack γ' w' ∧ w' ++ c.input = w ++ input := by
  induction hn : remaining weight heaviest γ input using Nat.strongRecOn
    generalizing stack γ w input with
  | ind n ih =>
    cases hstep : A.step G limit ⟨stack, input⟩ with
    | inr o =>
      refine ⟨⟨stack, input⟩, o, γ, w, ?_, .refl, hstep, h, rfl⟩
      unfold Automaton.run
      rw [hstep]
    | inl c =>
      obtain ⟨γ', w', hc, hinput, hmove⟩ := h.step hB hstep
      have hless : remaining weight heaviest γ' c.input < n := by
        subst hn
        unfold remaining
        rcases hmove with ⟨a, v, hread, rfl⟩ | ⟨r, γ₀, hread, rfl, rfl⟩
        · have ha := htoken a
          rw [hread, List.length_cons, List.map_cons, List.sum_cons, Nat.mul_add, Nat.mul_one]
          omega
        · have hr := hrule r
          rw [hread, List.map_cons, List.sum_cons, List.map_append, List.sum_append,
            List.map_reverse, List.sum_reverse]
          omega
      obtain ⟨c', o, γ'', w'', hrun, hsteps, hend, hspells, hinput'⟩ := ih _ hless hc _ rfl
      refine ⟨c', o, γ'', w'', ?_, .head hstep hsteps, hend, hspells, hinput'.trans hinput⟩
      unfold Automaton.run
      rw [hstep]
      exact Automaton.run_mono (by omega) hrun

/-- **What a parser answers.** It stops after a number of steps that the length of the
input bounds. It accepts the inputs that are derived from the start symbol; it has
reduced to the start symbol where it stops if the input begins with something that
is derived from it; and it gives up only on inputs that are longer than the stack
may be high, and on those that are derived, but need a higher one. -/
theorem run_spec (limit : ℕ) (hA : A.Forward G S item) (hB : A.Backward G S item)
    (hG : ∀ r, (G r).rhs ≠ []) (htoken : ∀ a, weight (.inl a) ≤ heaviest)
    (hrule : ∀ r, weight (.inr (G r).lhs) < ((G r).rhs.map weight).sum) (w : List (T × V)) :
    ∃ c o, A.run G limit ((heaviest + 1) * w.length + 1) ⟨[], w⟩ = some (c, o) ∧
      A.Steps G limit ⟨[], w⟩ c ∧ A.step G limit c = .inr o ∧
      (o = .accepted ↔ ∃ t d, Derives G [.inr S] w [t] d ∧ d ≤ limit) ∧
      (∀ t rest, (∃ q after, c = ⟨[(q, t)], rest⟩ ∧ item q none 1 after) ↔
        ∃ u d, w = u ++ rest ∧ Derives G [.inr S] u [t] d ∧ d ≤ limit) ∧
      (o = .exhausted → limit < w.length) ∧
      (∀ t d, Derives G [.inr S] w [t] d → limit < d → o = .exhausted) := by
  obtain ⟨c, o, γ, u, hrun, hsteps, hend, hspells, hinput⟩ :=
    exists_end hB htoken hrule Spells.nil w
  have hread (t : V) (rest : List (T × V)) :
      (∃ q after, c = ⟨[(q, t)], rest⟩ ∧ item q none 1 after) ↔
        ∃ u d, w = u ++ rest ∧ Derives G [.inr S] u [t] d ∧ d ≤ limit := by
    constructor
    · rintro ⟨q, after, rfl, hitem⟩
      obtain ⟨q', t', d, hstack, hu, hd⟩ := hspells.derives hB hitem
      cases hstack
      exact ⟨u, d, hinput.symm, hu, hd⟩
    · rintro ⟨u, d, rfl, hu, hd⟩
      obtain ⟨q, hsteps', hitem⟩ := hA.read hG hu hd rest
      obtain ⟨rfl, -⟩ := Automaton.eq_of_steps hsteps hend hsteps' (hA.step_end hitem)
      exact ⟨q, _, rfl, hitem⟩
  have haccept : o = .accepted ↔ ∃ t d, Derives G [.inr S] w [t] d ∧ d ≤ limit := by
    constructor
    · intro ho
      obtain ⟨hempty, after, hitem⟩ := (hspells.step_end hB hG hend).1 ho
      obtain ⟨q, t, d, -, hu, hd⟩ := hspells.derives hB hitem
      rw [hempty, List.append_nil, List.nil_append] at hinput
      exact ⟨t, d, hinput ▸ hu, hd⟩
    · rintro ⟨t, d, hw, hd⟩
      obtain ⟨q, hsteps', hitem⟩ := hA.read hG hw hd []
      rw [List.append_nil] at hsteps'
      exact (Automaton.eq_of_steps hsteps hend hsteps' (hA.step_end hitem)).2
  refine ⟨c, o, hrun, hsteps, hend, haccept, hread, fun ho => ?_, fun t d hw hd => ?_⟩
  · have h := (hspells.step_end hB hG hend).2 ho
    rwa [hinput] at h
  · have hrhs : rhs G S none = ([] : List (T ⊕ N)) ++ [.inr S] := rfl
    have hstart : item (A.top ([] : List (Q × V))) none ([] : List (T ⊕ N)).length none :=
      hA.start _
    have hlimit : limit < ([] : List (Q × V)).length + d := by rwa [List.length_nil, Nat.zero_add]
    obtain ⟨c', hsteps', hend'⟩ :=
      hA.exhausts hG hw hrhs hstart lookahead_nil (Nat.zero_le _) hlimit
    rw [List.append_nil] at hsteps'
    exact (Automaton.eq_of_steps hsteps hend hsteps' hend').2

end Runs

end ShiftReduce
