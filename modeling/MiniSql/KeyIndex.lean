import Mathlib.Logic.Function.Basic

/-!
# Indexes over keyed rows

A table of rows under row ids, both arbitrary, a partial key of each row, and
an index from keys to row ids. Two things are said of the three:

* `Agrees` – the index has the key of every row, with its row id, and nothing
  else;
* `Guards` – the index has the key of every row, and no two rows share a key:
  enough for the index to keep keys unique, whatever row ids it holds.

Both are kept by adding a row whose key is new to the index and by taking a
row and its key away, and by these two together: replacing a row, in its place
or under another row id.
-/

namespace KeyIndex

variable {ρ α κ : Type}

/-- The index maps the key of every row to its row id, and maps nothing
else. -/
def Agrees (key : α → Option κ) (rows : ρ → Option α) (index : κ → Option ρ) : Prop :=
  (∀ r a, rows r = some a → ∃ k, key a = some k ∧ index k = some r) ∧
    ∀ k r, index k = some r → ∃ a, rows r = some a ∧ key a = some k

/-- The index has the key of every row, and no two rows share a key. -/
def Guards (key : α → Option κ) (rows : ρ → Option α) (index : κ → Option ρ) : Prop :=
  (∀ r a, rows r = some a → ∃ k, key a = some k ∧ index k ≠ none) ∧
    ∀ r r' a a', rows r = some a → rows r' = some a' → key a = key a' → r = r'

variable {key : α → Option κ} {rows : ρ → Option α} {index : κ → Option ρ}
  {r v : ρ} {a : α} {k : κ}

theorem agrees_empty (hrows : ∀ r, rows r = none) (hindex : ∀ k, index k = none) :
    Agrees key rows index :=
  ⟨fun r a hr => absurd hr (by rw [hrows r]; nofun),
    fun k r hk => absurd hk (by rw [hindex k]; nofun)⟩

theorem guards_empty (hrows : ∀ r, rows r = none) : Guards key rows index :=
  ⟨fun r a hr => absurd hr (by rw [hrows r]; nofun),
    fun r r' a a' hr => absurd hr (by rw [hrows r]; nofun)⟩

/-- No row has a key that the index does not have. -/
theorem Guards.key_ne (h : Guards key rows index) (hfree : index k = none) (hr : rows r = some a) :
    key a ≠ some k := by
  intro hk
  obtain ⟨k', hk', hne⟩ := h.1 r a hr
  rw [hk] at hk'
  cases hk'
  exact hne hfree

/-- The rows determine an index that agrees with them. -/
theorem Agrees.unique {index' : κ → Option ρ} (h : Agrees key rows index)
    (h' : Agrees key rows index') : index' = index := by
  have hle : ∀ {i j : κ → Option ρ}, Agrees key rows i → Agrees key rows j →
      ∀ k r, i k = some r → j k = some r := by
    intro i j hi hj k r hr
    obtain ⟨a, ha, hk⟩ := hi.2 k r hr
    obtain ⟨k', hk', hr'⟩ := hj.1 r a ha
    cases hk.symm.trans hk'
    exact hr'
  funext k
  exact Option.ext (fun r => ⟨hle h' h k r, hle h h' k r⟩)

variable [DecidableEq ρ] [DecidableEq κ]

/-- **Adding a row** whose key is new to the index. -/
theorem Agrees.insert (h : Agrees key rows index) (hk : key a = some k) (hfree : index k = none)
    (hr : rows r = none) :
    Agrees key (Function.update rows r (some a)) (Function.update index k (some r)) := by
  constructor
  · intro r' a' hr'
    by_cases e : r' = r
    · rw [e, Function.update_self] at hr'
      cases hr'
      exact ⟨k, hk, by rw [e, Function.update_self]⟩
    · rw [Function.update_of_ne e] at hr'
      obtain ⟨k', hk', hi⟩ := h.1 r' a' hr'
      have hne : k' ≠ k := fun e' => absurd hi (by rw [e', hfree]; nofun)
      exact ⟨k', hk', by rw [Function.update_of_ne hne, hi]⟩
  · intro k' r' hi
    by_cases e : k' = k
    · rw [e, Function.update_self] at hi
      cases hi
      exact ⟨a, Function.update_self .., e ▸ hk⟩
    · rw [Function.update_of_ne e] at hi
      obtain ⟨a', hr', hk'⟩ := h.2 k' r' hi
      have hne : r' ≠ r := fun e' => absurd hr' (by rw [e', hr]; nofun)
      exact ⟨a', by rw [Function.update_of_ne hne, hr'], hk'⟩

/-- **Taking a row away** together with its key. -/
theorem Agrees.remove (h : Agrees key rows index) (hr : rows r = some a) (hk : key a = some k) :
    Agrees key (Function.update rows r none) (Function.update index k none) := by
  obtain ⟨k₀, hk₀, hi₀⟩ := h.1 r a hr
  rw [hk] at hk₀
  cases hk₀
  constructor
  · intro r' a' hr'
    by_cases e : r' = r
    · rw [e, Function.update_self] at hr'
      cases hr'
    · rw [Function.update_of_ne e] at hr'
      obtain ⟨k', hk', hi⟩ := h.1 r' a' hr'
      have hne : k' ≠ k := fun e' => by
        rw [e', hi₀] at hi
        exact e (Option.some.inj hi).symm
      exact ⟨k', hk', by rw [Function.update_of_ne hne, hi]⟩
  · intro k' r' hi
    by_cases e : k' = k
    · rw [e, Function.update_self] at hi
      cases hi
    · rw [Function.update_of_ne e] at hi
      obtain ⟨a', hr', hk'⟩ := h.2 k' r' hi
      have hne : r' ≠ r := fun e' => by
        rw [e', hr] at hr'
        cases hr'
        rw [hk] at hk'
        exact e (Option.some.inj hk').symm
      exact ⟨a', by rw [Function.update_of_ne hne, hr'], hk'⟩

/-- **Adding a row** whose key is new to the index, whatever row id the index
is given for it. -/
theorem Guards.insert (h : Guards key rows index) (hk : key a = some k) (hfree : index k = none) :
    Guards key (Function.update rows r (some a)) (Function.update index k (some v)) := by
  have hother : ∀ r' a', r' ≠ r → Function.update rows r (some a) r' = some a' →
      rows r' = some a' := fun r' a' e hr' => by rwa [Function.update_of_ne e] at hr'
  have hself : ∀ a', Function.update rows r (some a) r = some a' → key a' = some k :=
    fun a' hr' => by
      rw [Function.update_self] at hr'
      cases hr'
      exact hk
  constructor
  · intro r' a' hr'
    by_cases e : r' = r
    · exact ⟨k, hself a' (e ▸ hr'), by rw [Function.update_self]; nofun⟩
    · obtain ⟨k', hk', hne⟩ := h.1 r' a' (hother r' a' e hr')
      have hkk : k' ≠ k := fun e' => hne (by rw [e', hfree])
      exact ⟨k', hk', by rwa [Function.update_of_ne hkk]⟩
  · intro r₁ r₂ a₁ a₂ h₁ h₂ hsame
    by_cases e₁ : r₁ = r
    · by_cases e₂ : r₂ = r
      · rw [e₁, e₂]
      · exact absurd (hsame.symm.trans (hself a₁ (e₁ ▸ h₁))) (h.key_ne hfree (hother r₂ a₂ e₂ h₂))
    · by_cases e₂ : r₂ = r
      · exact absurd (hsame.trans (hself a₂ (e₂ ▸ h₂))) (h.key_ne hfree (hother r₁ a₁ e₁ h₁))
      · exact h.2 r₁ r₂ a₁ a₂ (hother r₁ a₁ e₁ h₁) (hother r₂ a₂ e₂ h₂) hsame

omit [DecidableEq ρ] in
/-- An entry more does no harm. -/
theorem Guards.add_entry (h : Guards key rows index) :
    Guards key rows (Function.update index k (some v)) := by
  refine ⟨fun r a hr => ?_, h.2⟩
  obtain ⟨k', hk', hne⟩ := h.1 r a hr
  refine ⟨k', hk', ?_⟩
  by_cases e : k' = k
  · rw [e, Function.update_self]
    nofun
  · rwa [Function.update_of_ne e]

/-- **Taking a row away** together with its key. -/
theorem Guards.remove (h : Guards key rows index) (hr : rows r = some a) (hk : key a = some k) :
    Guards key (Function.update rows r none) (Function.update index k none) := by
  have hother : ∀ r' a', Function.update rows r none r' = some a' → r' ≠ r ∧ rows r' = some a' := by
    intro r' a' hr'
    by_cases e : r' = r
    · rw [e, Function.update_self] at hr'
      cases hr'
    · exact ⟨e, by rwa [Function.update_of_ne e] at hr'⟩
  constructor
  · intro r' a' hr'
    obtain ⟨e, hrow⟩ := hother r' a' hr'
    obtain ⟨k', hk', hne⟩ := h.1 r' a' hrow
    have hkk : k' ≠ k := fun e' => e (h.2 r' r a' a hrow hr (by rw [hk', hk, e']))
    exact ⟨k', hk', by rwa [Function.update_of_ne hkk]⟩
  · intro r₁ r₂ a₁ a₂ h₁ h₂ hsame
    exact h.2 r₁ r₂ a₁ a₂ (hother r₁ a₁ h₁).2 (hother r₂ a₂ h₂).2 hsame

end KeyIndex
