import Mathlib.Data.List.Basic
import Mathlib.Order.Lattice.Nat

/-!
# Grammars whose rules give values

A context-free grammar in which every rule says what its value is made of, as
the grammar file of a parser generator does. A derivation is of a sequence of
symbols: it has the tokens that these stand for, their values, and the height of
the stack that a parser needs which keeps one place for each symbol it has read.

Where every rule has a symbol on its right side, the first token of a derivation is
one that its first symbol starts with (`Derives.exists_starts`).
-/

namespace Grammar

variable {T N V R : Type}

/-- A rule: the symbol that it is for, the symbols that it consists of, and the
value that it makes of their values. -/
structure Rule (T N V : Type) where
  /-- The left side. -/
  lhs : N
  /-- The right side. -/
  rhs : List (T ⊕ N)
  /-- The value, from those of the right side. -/
  value : List V → V

variable (G : R → Rule T N V)

/-- **A derivation** of a sequence of symbols, with the tokens that they stand for,
their values, and the height of the stack that it needs. -/
inductive Derives : List (T ⊕ N) → List (T × V) → List V → ℕ → Prop
  | nil : Derives [] [] [] 0
  | token {a : T} {v : V} {β : List (T ⊕ N)} {w : List (T × V)} {vs : List V} {d : ℕ} :
      Derives β w vs d → Derives (.inl a :: β) ((a, v) :: w) (v :: vs) (d + 1)
  | rule {r : R} {β : List (T ⊕ N)} {u w : List (T × V)} {us vs : List V} {e d : ℕ} :
      Derives (G r).rhs u us e → Derives β w vs d →
        Derives (.inr (G r).lhs :: β) (u ++ w) ((G r).value us :: vs) (max e (d + 1))

/-- The tokens that a symbol starts with, where every rule has a right side. -/
inductive Starts : T ⊕ N → T → Prop
  | token (a : T) : Starts (.inl a) a
  | rule {r : R} {X : T ⊕ N} {β : List (T ⊕ N)} {a : T} :
      (G r).rhs = X :: β → Starts X a → Starts (.inr (G r).lhs) a

variable {G} {α β : List (T ⊕ N)} {u w : List (T × V)} {us vs : List V} {d e : ℕ}

namespace Derives

/-- One sequence of symbols after the other: the second one stands on the places
of the first one. -/
theorem append (h : Derives G α u us d) (h' : Derives G β w vs e) :
    Derives G (α ++ β) (u ++ w) (us ++ vs) (max d (α.length + e)) := by
  induction h with
  | nil => simpa only [List.nil_append, List.length_nil, Nat.zero_add, Nat.zero_max] using h'
  | @token a v γ u us d _ ih =>
    have hd : max (d + 1) ((γ.length + 1) + e) = max d (γ.length + e) + 1 := by omega
    rw [List.length_cons, hd]
    exact ih.token
  | @rule r γ u' u us' us d' d h' _ _ ih =>
    have hd : max (max d' (d + 1)) ((γ.length + 1) + e) = max d' (max d (γ.length + e) + 1) := by
      omega
    rw [List.length_cons, hd, List.append_assoc]
    exact h'.rule ih

/-- One value for each symbol. -/
theorem length_values (h : Derives G β w vs d) : vs.length = β.length := by
  induction h with
  | nil => rfl
  | token _ ih => rw [List.length_cons, List.length_cons, ih]
  | rule _ _ _ ih => rw [List.length_cons, List.length_cons, ih]

/-- One place for each symbol. -/
theorem length_le_height (h : Derives G β w vs d) : β.length ≤ d := by
  induction h with
  | nil => exact le_rfl
  | token _ ih => exact Nat.succ_le_succ ih
  | rule _ _ _ ih => exact (Nat.succ_le_succ ih).trans (Nat.le_max_right _ _)

/-- At least one token for each symbol, where every rule has a right side. -/
theorem length_le_length (hG : ∀ r, (G r).rhs ≠ []) (h : Derives G β w vs d) :
    β.length ≤ w.length := by
  induction h with
  | nil => exact le_rfl
  | token _ ih => exact Nat.succ_le_succ ih
  | @rule r β u w _ _ _ _ _ _ ihu ih =>
    have hpos : 1 ≤ u.length := (List.length_pos_iff.mpr (hG r)).trans_le ihu
    rw [List.length_cons, List.length_append]
    omega

/-- The first token is one that the first symbol starts with. -/
theorem exists_starts (hG : ∀ r, (G r).rhs ≠ []) {X : T ⊕ N}
    (h : Derives G (X :: β) w vs d) : ∃ a v w', w = (a, v) :: w' ∧ Starts G X a := by
  generalize hα : X :: β = α at h
  induction h generalizing X β with
  | nil => cases hα
  | token _ _ =>
    cases hα
    exact ⟨_, _, _, rfl, .token _⟩
  | @rule r _ u w _ _ _ _ hu _ ihu _ =>
    cases hα
    obtain ⟨Y, γ, hrhs⟩ := List.exists_cons_of_ne_nil (hG r)
    obtain ⟨a, v, u', rfl, hstarts⟩ := ihu hrhs.symm
    exact ⟨a, v, u' ++ w, rfl, .rule hrhs hstarts⟩

end Derives

end Grammar
