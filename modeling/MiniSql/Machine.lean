import Mathlib.Data.List.Basic

/-!
# Machines that answer calls

A component that is driven by calls is a partial step function: in a state,
a call either gets stuck (a failed assertion, a read of memory that is not
there) or leads to a next state with an answer. Everything that is said here
about such a component is said of whole sequences of calls.

* `run` – the calls of a sequence one after the other, with their answers;
* `Meets` – every call of the sequence meets a condition in the state in
  which it is made, `EndsWith` – the last one does;
* `Reaches` – the states that sequences of such calls lead to, `Always` – every
  call of a sequence stands in a relation to the states around it.

The rules are the ones every development over such a machine needs:
`Reaches.invariant` carries an invariant along, `always_iff_meets` turns a
condition that is necessary and sufficient for one call into one for whole
sequences, `run_of_simulation` turns a
simulation by a total abstract machine into the statement that the sequence
runs to its end and gives the abstract answers, and `run_of_bisimulation`
does the same with an abstract machine that gets stuck where the concrete one
does.
-/

namespace Machine

variable {σ τ ι ο : Type}

/-- Make the calls of a sequence one after the other. -/
def run (step : σ → ι → Option (σ × ο)) : σ → List ι → Option (σ × List ο)
  | s, [] => some (s, [])
  | s, i :: is =>
    match step s i with
    | none => none
    | some (s', o) =>
      match run step s' is with
      | none => none
      | some (s'', os) => some (s'', o :: os)

/-- Every call of the sequence meets the condition where it is made. -/
def Meets (step : σ → ι → Option (σ × ο)) (cond : σ → ι → Prop) : σ → List ι → Prop
  | _, [] => True
  | s, i :: is => cond s i ∧ ∀ s' o, step s i = some (s', o) → Meets step cond s' is

/-- The last call of the sequence meets the condition where it is made; where
there is no call, something else holds. -/
def EndsWith (step : σ → ι → Option (σ × ο)) (cond : σ → ι → Prop) : Prop → σ → List ι → Prop
  | w, _, [] => w
  | _, s, i :: is => ∀ s' o, step s i = some (s', o) → EndsWith step cond (cond s i) s' is

/-- The states that calls meeting a condition lead to. -/
inductive Reaches (step : σ → ι → Option (σ × ο)) (cond : σ → ι → Prop) (s₀ : σ) : σ → Prop
  | init : Reaches step cond s₀ s₀
  | next {s s' : σ} {i : ι} {o : ο} :
      Reaches step cond s₀ s → cond s i → step s i = some (s', o) → Reaches step cond s₀ s'

/-- Every call of the sequence stands in a relation to the states before and
after it. -/
def Always (step : σ → ι → Option (σ × ο)) (Q : σ → ι → σ → Prop) : σ → List ι → Prop
  | _, [] => True
  | s, i :: is => ∀ s' o, step s i = some (s', o) → Q s i s' ∧ Always step Q s' is

variable {step : σ → ι → Option (σ × ο)} {cond : σ → ι → Prop}

/-- **Invariants.** What holds at the start and is kept by every call that
meets the condition holds in every state reached. -/
theorem Reaches.invariant {I : σ → Prop} {s₀ s : σ} (h₀ : I s₀)
    (hstep : ∀ s i s' o, I s → cond s i → step s i = some (s', o) → I s')
    (h : Reaches step cond s₀ s) : I s := by
  induction h with
  | init => exact h₀
  | next _ hc hs ih => exact hstep _ _ _ _ ih hc hs

theorem run_cons_eq_some {s s'' : σ} {i : ι} {is : List ι} {os : List ο}
    (h : run step s (i :: is) = some (s'', os)) :
    ∃ s' o os', step s i = some (s', o) ∧ run step s' is = some (s'', os') ∧ os = o :: os' := by
  unfold run at h
  split at h
  · cases h
  · rename_i s' o hs
    split at h
    · cases h
    · rename_i s₂ os' hrun
      cases h
      exact ⟨s', o, os', hs, hrun, rfl⟩

theorem run_cons {s s' s'' : σ} {i : ι} {o : ο} {is : List ι} {os : List ο}
    (h : step s i = some (s', o)) (hrun : run step s' is = some (s'', os)) :
    run step s (i :: is) = some (s'', o :: os) := by
  simp only [run, h, hrun]

theorem meets_cons {s s' : σ} {i : ι} {o : ο} (h : step s i = some (s', o)) (is : List ι) :
    Meets step cond s (i :: is) ↔ cond s i ∧ Meets step cond s' is := by
  refine and_congr_right (fun _ => ⟨fun hall => hall s' o h, fun hm s₁ o₁ h₁ => ?_⟩)
  cases h.symm.trans h₁
  exact hm

theorem endsWith_cons {w : Prop} {s s' : σ} {i : ι} {o : ο} (h : step s i = some (s', o))
    (is : List ι) :
    EndsWith step cond w s (i :: is) ↔ EndsWith step cond (cond s i) s' is := by
  refine ⟨fun hall => hall s' o h, fun hm s₁ o₁ h₁ => ?_⟩
  cases h.symm.trans h₁
  exact hm

theorem meets_cons_none {s : σ} {i : ι} (h : step s i = none) (is : List ι) :
    Meets step cond s (i :: is) ↔ cond s i :=
  ⟨And.left, fun hc => ⟨hc, fun _ _ h' => nomatch h.symm.trans h'⟩⟩

/-- Whether the calls meet a condition can be found out by making them. -/
instance decidableMeets [∀ s i, Decidable (cond s i)] :
    ∀ s is, Decidable (Meets step cond s is)
  | _, [] => inferInstanceAs (Decidable True)
  | s, i :: is =>
    match h : step s i with
    | none => decidable_of_iff _ (meets_cons_none h is).symm
    | some (s', _) =>
      have := decidableMeets s' is
      decidable_of_iff _ (meets_cons h is).symm

/-- Where the condition always holds, every sequence meets it. -/
theorem meets_of_forall (hcond : ∀ s i, cond s i) (s : σ) (is : List ι) : Meets step cond s is := by
  induction is generalizing s with
  | nil => trivial
  | cons i is ih => exact ⟨hcond s i, fun s' _ _ => ih s'⟩

/-- A weaker condition is met too. -/
theorem Meets.imp {cond' : σ → ι → Prop} (himp : ∀ s i, cond s i → cond' s i) {s : σ}
    {is : List ι} (h : Meets step cond s is) : Meets step cond' s is := by
  induction is generalizing s with
  | nil => trivial
  | cons i is ih => exact ⟨himp s i h.1, fun s' o hs => ih (h.2 s' o hs)⟩

/-- A condition on the calls alone is met if each call of the sequence meets
it. -/
theorem meets_of_forall_mem {cond : ι → Prop} {is : List ι} (h : ∀ i ∈ is, cond i) (s : σ) :
    Meets step (fun _ i => cond i) s is := by
  induction is generalizing s with
  | nil => trivial
  | cons i is ih =>
    exact ⟨h i List.mem_cons_self, fun s' _ _ =>
      ih (fun j hj => h j (List.mem_cons_of_mem i hj)) s'⟩

/-- And a condition on the calls alone may be added. -/
theorem Meets.and_mem {cond' : ι → Prop} {s : σ} {is : List ι} (h : Meets step cond s is)
    (h' : ∀ i ∈ is, cond' i) : Meets step (fun s i => cond' i ∧ cond s i) s is := by
  induction is generalizing s with
  | nil => trivial
  | cons i is ih =>
    exact ⟨⟨h' i List.mem_cons_self, h.1⟩, fun s' o hs =>
      ih (h.2 s' o hs) (fun j hj => h' j (List.mem_cons_of_mem i hj))⟩

/-- What holds all along a sequence holds along the rest of it. -/
theorem Always.of_append {Q : σ → ι → σ → Prop} {s s' : σ} {is js : List ι} {os : List ο}
    (h : Always step Q s (is ++ js)) (hrun : run step s is = some (s', os)) :
    Always step Q s' js := by
  induction is generalizing s os with
  | nil =>
    cases hrun
    exact h
  | cons i is ih =>
    obtain ⟨s₁, o, os', hs, hrest, -⟩ := run_cons_eq_some hrun
    exact ih (h s₁ o hs).2 hrest

/-- What the calls of a sequence meet, those of its parts meet. -/
theorem Meets.of_append {s : σ} {is js : List ι} (h : Meets step cond s (is ++ js)) :
    Meets step cond s is ∧ ∀ s' os, run step s is = some (s', os) → Meets step cond s' js := by
  induction is generalizing s with
  | nil =>
    refine ⟨trivial, ?_⟩
    rintro s' os ⟨⟩
    exact h
  | cons i is ih =>
    refine ⟨⟨h.1, fun s' o hs => (ih (h.2 s' o hs)).1⟩, fun s' os hrun => ?_⟩
    obtain ⟨s₁, o, os', hs, hrest, -⟩ := run_cons_eq_some hrun
    exact (ih (h.2 s₁ o hs)).2 s' os' hrest

/-- What is met by a sequence, and by another one from there on. -/
theorem Meets.append {s : σ} {is js : List ι} (h : Meets step cond s is)
    (h' : ∀ s' os, run step s is = some (s', os) → Meets step cond s' js) :
    Meets step cond s (is ++ js) := by
  induction is generalizing s with
  | nil => exact h' s [] rfl
  | cons i is ih =>
    exact ⟨h.1, fun s₁ o hs => ih (h.2 s₁ o hs) (fun s' os hrun => h' s' (o :: os)
      (run_cons hs hrun))⟩

/-- One sequence after the other. -/
theorem run_append (s : σ) (is js : List ι) : run step s (is ++ js) =
    (run step s is).bind (fun r => (run step r.1 js).map (fun r' => (r'.1, r.2 ++ r'.2))) := by
  induction is generalizing s with
  | nil => exact Option.map_id'.symm
  | cons i is ih =>
    rw [List.cons_append, run, run]
    rcases step s i with _ | ⟨s', o⟩
    · rfl
    · dsimp only
      rw [ih]
      rcases run step s' is with _ | ⟨s₁, os⟩
      · rfl
      · dsimp only [Option.bind_some]
        rcases run step s₁ js with _ | ⟨s₂, os'⟩
        · rfl
        · rfl

/-- Calls that are read off something else. -/
theorem run_map {κ : Type} (f : κ → ι) (s : σ) (xs : List κ) :
    run step s (xs.map f) = run (fun s x => step s (f x)) s xs := by
  induction xs generalizing s with
  | nil => rfl
  | cons x xs ih =>
    rw [List.map_cons, run, run]
    rcases step s (f x) with _ | ⟨s', o⟩
    · rfl
    · dsimp only
      rw [ih]

/-- **Exact conditions.** If, under an invariant that it keeps, the relation holds
of a call exactly when it meets the condition, and no call that gets stuck fails
to meet it, then the relation holds all along a sequence exactly when every call
meets the condition. -/
theorem always_iff_meets {I : σ → Prop} {Q : σ → ι → σ → Prop} {s : σ} (h₀ : I s)
    (hstep : ∀ s i s' o, I s → step s i = some (s', o) →
      (Q s i s' ↔ cond s i) ∧ (Q s i s' → I s'))
    (hstuck : ∀ s i, I s → step s i = none → cond s i) (is : List ι) :
    Always step Q s is ↔ Meets step cond s is := by
  induction is generalizing s with
  | nil => exact Iff.rfl
  | cons i is ih =>
    cases hs : step s i with
    | none =>
      refine iff_of_true (fun s' o h => ?_) ((meets_cons_none hs is).mpr (hstuck s i h₀ hs))
      exact absurd (hs.symm.trans h) nofun
    | some r =>
      obtain ⟨s', o⟩ := r
      obtain ⟨hiff, hkeeps⟩ := hstep s i s' o h₀ hs
      rw [meets_cons hs is]
      constructor
      · intro halways
        obtain ⟨hQ, hrest⟩ := halways s' o hs
        exact ⟨hiff.mp hQ, (ih (hkeeps hQ)).mp hrest⟩
      · rintro ⟨hcond, hmeets⟩ s₁ o₁ h₁
        cases hs.symm.trans h₁
        have hQ := hiff.mpr hcond
        exact ⟨hQ, (ih (hkeeps hQ)).mpr hmeets⟩

/-- A sequence whose calls meet the condition leads on to a state reached. -/
theorem Reaches.run {s₀ s s' : σ} {is : List ι} {os : List ο} (h : Reaches step cond s₀ s)
    (hm : Meets step cond s is) (hrun : run step s is = some (s', os)) :
    Reaches step cond s₀ s' := by
  induction is generalizing s os with
  | nil =>
    cases hrun
    exact h
  | cons i is ih =>
    obtain ⟨s₁, o, os', hs, hrest, -⟩ := run_cons_eq_some hrun
    exact ih (h.next hm.1 hs) (hm.2 s₁ o hs) hrest

/-- The answers of a total machine to a sequence of calls. -/
def answers (astep : τ → ι → τ × ο) : τ → List ι → List ο
  | _, [] => []
  | a, i :: is => (astep a i).2 :: answers astep (astep a i).1 is

/-- The state in which a sequence of calls leaves a total machine. -/
def final (astep : τ → ι → τ × ο) : τ → List ι → τ
  | a, [] => a
  | a, i :: is => final astep (astep a i).1 is

/-- **Simulation.** If every call that meets the condition succeeds, answers
as the abstract machine does and keeps the relation, then so does every
sequence of such calls. -/
theorem run_of_simulation {R : σ → τ → Prop} {astep : τ → ι → τ × ο}
    (hsim : ∀ s a i, R s a → cond s i →
      ∃ s', step s i = some (s', (astep a i).2) ∧ R s' (astep a i).1)
    {s : σ} {a : τ} (hR : R s a) {is : List ι} (hm : Meets step cond s is) :
    ∃ s', run step s is = some (s', answers astep a is) ∧ R s' (final astep a is) := by
  induction is generalizing s a with
  | nil => exact ⟨s, rfl, hR⟩
  | cons i is ih =>
    obtain ⟨s', hs', hR'⟩ := hsim s a i hR hm.1
    obtain ⟨s'', hrun, hR''⟩ := ih hR' (hm.2 s' _ hs')
    refine ⟨s'', ?_, hR''⟩
    simp only [run, hs', hrun, answers]

/-- **Simulation by a partial machine.** If at every call either both
machines are stuck, or both answer the same and the relation is kept, then
this holds of every sequence of calls. -/
theorem run_of_bisimulation {R : σ → τ → Prop} {astep : τ → ι → Option (τ × ο)}
    (hsim : ∀ s a i, R s a → (step s i = none ∧ astep a i = none) ∨
      ∃ s' a' o, step s i = some (s', o) ∧ astep a i = some (a', o) ∧ R s' a')
    {s : σ} {a : τ} (hR : R s a) (is : List ι) :
    (run step s is = none ∧ run astep a is = none) ∨
      ∃ s' a' os, run step s is = some (s', os) ∧ run astep a is = some (a', os) ∧ R s' a' := by
  induction is generalizing s a with
  | nil => exact .inr ⟨s, a, [], rfl, rfl, hR⟩
  | cons i is ih =>
    rcases hsim s a i hR with ⟨hs, ha⟩ | ⟨s', a', o, hs, ha, hR'⟩
    · exact .inl ⟨by simp only [run, hs], by simp only [run, ha]⟩
    · rcases ih hR' with ⟨hs', ha'⟩ | ⟨s'', a'', os, hs', ha', hR''⟩
      · exact .inl ⟨by simp only [run, hs, hs'], by simp only [run, ha, ha']⟩
      · exact .inr ⟨s'', a'', o :: os, by simp only [run, hs, hs'], by simp only [run, ha, ha'],
          hR''⟩

end Machine
