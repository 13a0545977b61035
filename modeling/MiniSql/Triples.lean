import Mathlib.Data.List.Basic

/-!
# What code leaves behind

Code over a state that may get stuck is a program of `StateT σ Option`.
`Triple P m Q` says that where `m` starts in a state with `P` and does not get
stuck, its result and the state it leaves have `Q`; nothing is said about code
that gets stuck. `Keeps I m` is the special case of an invariant.

There is one rule for each way in which code is put together, so that what
holds of a function is found statement by statement: the rule of its last
statement gives what the statement before has to leave (`Triple.bind`).
-/

namespace Program

variable {σ α β : Type}

/-- **Partial correctness**: started with `P`, the code leaves `Q`, unless it
gets stuck. -/
def Triple (P : σ → Prop) (m : StateT σ Option α) (Q : α → σ → Prop) : Prop :=
  ∀ s a s', P s → m s = some (a, s') → Q a s'

/-- The code keeps an invariant. -/
abbrev Keeps (I : σ → Prop) (m : StateT σ Option α) : Prop := Triple I m (fun _ => I)

variable {P P' : σ → Prop} {Q Q' : α → σ → Prop} {R : β → σ → Prop} {m : StateT σ Option α}
  {f : α → StateT σ Option β}

/-- **One statement after the other.** -/
theorem Triple.bind (h : Triple P m Q) (h' : ∀ a, Triple (Q a) (f a) R) :
    Triple P (m >>= f) R := by
  intro s b s' hs hrun
  obtain ⟨⟨a, s₁⟩, h₁, h₂⟩ := Option.bind_eq_some_iff.mp hrun
  exact h' a s₁ b s' (h s a s₁ hs h₁) h₂

/-- The next statement may use what is known of the result alone. -/
theorem Triple.andThen {φ : α → Prop} (h : Triple P m (fun a s => φ a ∧ Q a s))
    (h' : ∀ a, φ a → Triple (Q a) (f a) R) : Triple P (m >>= f) R :=
  h.bind (fun a s b s' hs hrun => h' a hs.1 s b s' hs.2 hrun)

/-- More may be asked for and less be left. -/
theorem Triple.weaken (h : Triple P m Q) (hP : ∀ s, P' s → P s)
    (hQ : ∀ a s, Q a s → Q' a s) : Triple P' m Q' :=
  fun s a s' hs hrun => hQ a s' (h s a s' (hP s hs) hrun)

theorem Triple.pre (h : Triple P m Q) (hP : ∀ s, P' s → P s) : Triple P' m Q :=
  h.weaken hP (fun _ _ hq => hq)

theorem Triple.post (h : Triple P m Q) (hQ : ∀ a s, Q a s → Q' a s) : Triple P m Q' :=
  h.weaken (fun _ hp => hp) hQ

/-- A result. -/
theorem Triple.ret {a : α} (h : ∀ s, P s → Q a s) :
    Triple P (pure a : StateT σ Option α) Q := by
  intro s b s' hs hrun
  cases hrun
  exact h s hs

/-- A value that may be missing. -/
theorem Triple.lift {o : Option α} (h : ∀ a, o = some a → ∀ s, P s → Q a s) :
    Triple P (liftM o : StateT σ Option α) Q := by
  intro s b s' hs hrun
  obtain ⟨a, ho, heq⟩ := Option.bind_eq_some_iff.mp hrun
  cases heq
  exact h _ ho s hs

/-- Where the value is there, that is known from then on. -/
theorem Triple.known {o : Option α} :
    Triple P (liftM o : StateT σ Option α) (fun a s => o = some a ∧ P s) :=
  Triple.lift (fun _ ho _ hs => ⟨ho, hs⟩)

/-- The state as a value. -/
theorem Triple.read {Q : σ → σ → Prop} (h : ∀ s, P s → Q s s) :
    Triple P (get : StateT σ Option σ) Q := by
  intro s b s' hs hrun
  cases hrun
  exact h s hs

/-- A change of the state. -/
theorem Triple.update {g : σ → σ} {Q : PUnit → σ → Prop} (h : ∀ s, P s → Q ⟨⟩ (g s)) :
    Triple P (modify g : StateT σ Option PUnit) Q := by
  intro s b s' hs hrun
  cases hrun
  exact h s hs

/-- Code that is stuck leaves anything. -/
theorem Triple.stuck : Triple P (failure : StateT σ Option α) Q := by
  intro s b s' _ hrun
  cases hrun

/-- **Choices.** -/
theorem Triple.ite {c : Prop} [Decidable c] {m' : StateT σ Option α}
    (h : c → Triple P m Q) (h' : ¬c → Triple P m' Q) : Triple P (if c then m else m') Q := by
  split
  · exact h ‹_›
  · exact h' ‹_›

/-- What does not depend on the state may be assumed. -/
theorem Triple.assume {p : Prop} (h : p → Triple P m Q) : Triple (fun s => p ∧ P s) m Q :=
  fun s a s' hs hrun => h hs.1 s a s' hs.2 hrun

/-- Two things that are left are left together. -/
theorem Triple.both {Q₁ Q₂ : α → σ → Prop} (h₁ : Triple P m Q₁) (h₂ : Triple P' m Q₂) :
    Triple (fun s => P s ∧ P' s) m (fun a s => Q₁ a s ∧ Q₂ a s) :=
  fun s a s' hs hrun => ⟨h₁ s a s' hs.1 hrun, h₂ s a s' hs.2 hrun⟩

/-- What is known of the result is known together as well. -/
theorem Triple.bothKnown {φ₁ φ₂ : α → Prop} {Q₁ Q₂ : α → σ → Prop}
    (h₁ : Triple P m (fun a s => φ₁ a ∧ Q₁ a s)) (h₂ : Triple P' m (fun a s => φ₂ a ∧ Q₂ a s)) :
    Triple (fun s => P s ∧ P' s) m (fun a s => (φ₁ a ∧ φ₂ a) ∧ Q₁ a s ∧ Q₂ a s) :=
  (h₁.both h₂).post (fun _ _ h => ⟨⟨h.1.1, h.2.1⟩, h.1.2, h.2.2⟩)

/-- What holds after code has run, if it does not get stuck. -/
def Afterwards (m : StateT σ Option α) (Φ : α → σ → Prop) (s : σ) : Prop :=
  ∀ a s', m s = some (a, s') → Φ a s'

/-- **Two pieces of code that start alike**: what is asked for the other one
follows the statement that both begin with. -/
theorem Triple.alongside {γ : Type} {g : α → StateT σ Option γ} {Φ : γ → σ → Prop}
    (h : Triple P m Q) (h' : ∀ a, Triple (fun s => Q a s ∧ Afterwards (g a) Φ s) (f a) R) :
    Triple (fun s => P s ∧ Afterwards (m >>= g) Φ s) (m >>= f) R := by
  intro s b s' hs hrun
  obtain ⟨⟨a, s₁⟩, h₁, h₂⟩ := Option.bind_eq_some_iff.mp hrun
  refine h' a s₁ b s' ⟨h s a s₁ hs.1 h₁, fun c s₂ hc => ?_⟩ h₂
  exact hs.2 c s₂ (Option.bind_eq_some_iff.mpr ⟨(a, s₁), h₁, hc⟩)

/-- And what is known of the result. -/
theorem Triple.alongsideKnown {γ : Type} {g : α → StateT σ Option γ} {Φ : γ → σ → Prop}
    {φ : α → Prop} (h : Triple P m (fun a s => φ a ∧ Q a s))
    (h' : ∀ a, φ a → Triple (fun s => Q a s ∧ Afterwards (g a) Φ s) (f a) R) :
    Triple (fun s => P s ∧ Afterwards (m >>= g) Φ s) (m >>= f) R :=
  h.alongside (fun a s b s' hs => h' a hs.1.1 s b s' ⟨hs.1.2, hs.2⟩)

/-- In either case. -/
theorem Triple.or (h : Triple P m Q) (h' : Triple P' m Q) : Triple (fun s => P s ∨ P' s) m Q :=
  fun s a s' hs hrun => hs.elim (fun hs => h s a s' hs hrun) (fun hs => h' s a s' hs hrun)

/-- What is known of the state from which the code starts. -/
theorem Triple.of_start (h : ∀ s₀, P s₀ → Triple (fun s => s = s₀) m Q) : Triple P m Q :=
  fun s a s' hs hrun => h s hs s a s' rfl hrun

end Program
