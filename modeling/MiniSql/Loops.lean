import Mathlib.Data.List.Basic

/-!
# Loops that may break off

The loops of a program that works on a state and answers success or failure:
a body that gets stuck stops everything, and one that answers failure ends
the loop and hands the failure on. `forEach` runs the body over a list,
`scan` over positions of which each one is found from the state that the
round before it has left.

A condition on the rounds is a condition on the state and the element with
which each round starts (`ForEach.Meets`, `Scan.Meets`), and an invariant
that every such round keeps is kept by the whole loop.
-/

namespace Loops

variable {σ α : Type}

/-- Run the body for each element. -/
def forEach (body : σ → α → Option (σ × Bool)) : σ → List α → Option (σ × Bool)
  | s, [] => some (s, true)
  | s, x :: xs =>
    match body s x with
    | none => none
    | some (s', false) => some (s', false)
    | some (s', true) => forEach body s' xs

/-- Run the body from position to position until there is none left, for at
most the given number of rounds. -/
def scan (next : σ → α → Option α) (body : σ → α → Option (σ × Bool)) :
    ℕ → σ → Option α → Option (σ × Bool)
  | _, s, none => some (s, true)
  | 0, _, some _ => none
  | n + 1, s, some x =>
    match body s x with
    | none => none
    | some (s', false) => some (s', false)
    | some (s', true) => scan next body n s' (next s' x)

/-- Every round of `forEach` starts as the condition wants it. -/
def ForEach.Meets (body : σ → α → Option (σ × Bool)) (cond : σ → α → Prop) : σ → List α → Prop
  | _, [] => True
  | s, x :: xs => cond s x ∧ ∀ s', body s x = some (s', true) → Meets body cond s' xs

/-- Every round of `scan` starts as the condition wants it. -/
def Scan.Meets (next : σ → α → Option α) (body : σ → α → Option (σ × Bool))
    (cond : σ → α → Prop) : ℕ → σ → Option α → Prop
  | _, _, none => True
  | 0, _, some _ => True
  | n + 1, s, some x =>
    cond s x ∧ ∀ s', body s x = some (s', true) → Meets next body cond n s' (next s' x)

variable {next : σ → α → Option α} {body : σ → α → Option (σ × Bool)} {cond : σ → α → Prop}
  {I : σ → Prop}

/-- A list of one element takes one round. -/
theorem forEach_singleton {s : σ} {x : α} {r : σ × Bool} :
    forEach body s [x] = some r ↔ body s x = some r := by
  unfold forEach
  rcases body s x with _ | ⟨s', _ | _⟩
  · exact Iff.rfl
  · exact Iff.rfl
  · exact Iff.rfl

/-- A loop that succeeds has a first round that does. -/
theorem forEach_cons_true {s s' : σ} {x : α} {xs : List α}
    (h : forEach body s (x :: xs) = some (s', true)) :
    ∃ s₁, body s x = some (s₁, true) ∧ forEach body s₁ xs = some (s', true) := by
  unfold forEach at h
  split at h
  · cases h
  · cases h
  · rename_i s₁ hs₁
    exact ⟨s₁, hs₁, h⟩

theorem scan_some_true {n : ℕ} {s s' : σ} {x : α}
    (h : scan next body n s (some x) = some (s', true)) :
    ∃ k s₁, n = k + 1 ∧ body s x = some (s₁, true) ∧
      scan next body k s₁ (next s₁ x) = some (s', true) := by
  cases n with
  | zero => cases h
  | succ k =>
    unfold scan at h
    split at h
    · cases h
    · cases h
    · rename_i s₁ hs₁
      exact ⟨k, s₁, rfl, hs₁, h⟩

/-- The condition on the rounds, where the first one succeeds. -/
theorem ForEach.meets_cons {s s₁ : σ} {x : α} {xs : List α} (h : body s x = some (s₁, true)) :
    Meets body cond s (x :: xs) ↔ cond s x ∧ Meets body cond s₁ xs := by
  refine and_congr_right (fun _ => ⟨fun hall => hall s₁ h, fun hrest s' hs' => ?_⟩)
  rw [h] at hs'
  cases hs'
  exact hrest

theorem Scan.meets_succ {n : ℕ} {s s₁ : σ} {x : α} (h : body s x = some (s₁, true)) :
    Meets next body cond (n + 1) s (some x) ↔
      cond s x ∧ Meets next body cond n s₁ (next s₁ x) := by
  refine and_congr_right (fun _ => ⟨fun hall => hall s₁ h, fun hrest s' hs' => ?_⟩)
  rw [h] at hs'
  cases hs'
  exact hrest

/-- A loop on a state that has more to it does the same to the part. -/
theorem map_forEach {τ : Type} {f : τ → σ} {body' : τ → α → Option (τ × Bool)}
    (h : ∀ s x, (body' s x).map (fun r => (f r.1, r.2)) = body (f s) x) (s : τ) (xs : List α) :
    (forEach body' s xs).map (fun r => (f r.1, r.2)) = forEach body (f s) xs := by
  induction xs generalizing s with
  | nil => rfl
  | cons x xs ih =>
    unfold forEach
    rw [← h s x]
    rcases body' s x with _ | ⟨s', _ | _⟩
    · rfl
    · rfl
    · exact ih s'

theorem map_scan {τ : Type} {f : τ → σ} {body' : τ → α → Option (τ × Bool)}
    {next' : τ → α → Option α} (hnext : ∀ s x, next' s x = next (f s) x)
    (h : ∀ s x, (body' s x).map (fun r => (f r.1, r.2)) = body (f s) x) (n : ℕ) (s : τ)
    (pos : Option α) :
    (scan next' body' n s pos).map (fun r => (f r.1, r.2)) = scan next body n (f s) pos := by
  induction n generalizing s pos with
  | zero => cases pos <;> rfl
  | succ n ih =>
    cases pos with
    | none => rfl
    | some x =>
      unfold scan
      rw [← h s x]
      rcases body' s x with _ | ⟨s', _ | _⟩
      · rfl
      · rfl
      · show (scan next' body' n s' (next' s' x)).map _ = scan next body n (f s') (next (f s') x)
        rw [ih, hnext]

/-- What every round keeps is kept by the loop over a list. -/
theorem forEach_invariant
    (hbody : ∀ s x s' b, I s → cond s x → body s x = some (s', b) → I s') {s s' : σ}
    {xs : List α} {b : Bool} (hs : I s) (hmeets : ForEach.Meets body cond s xs)
    (h : forEach body s xs = some (s', b)) : I s' := by
  induction xs generalizing s with
  | nil =>
    cases h
    exact hs
  | cons x xs ih =>
    unfold forEach at h
    split at h
    · cases h
    · rename_i s₁ hs₁
      cases h
      exact hbody s x _ _ hs hmeets.1 hs₁
    · rename_i s₁ hs₁
      exact ih (hbody s x _ _ hs hmeets.1 hs₁) (hmeets.2 s₁ hs₁) h

/-- What every round keeps is kept by the loop over positions. -/
theorem scan_invariant
    (hbody : ∀ s x s' b, I s → cond s x → body s x = some (s', b) → I s') {n : ℕ} {s s' : σ}
    {pos : Option α} {b : Bool} (hs : I s) (hmeets : Scan.Meets next body cond n s pos)
    (h : scan next body n s pos = some (s', b)) : I s' := by
  induction n generalizing s pos with
  | zero =>
    cases pos with
    | none =>
      cases h
      exact hs
    | some x => cases h
  | succ n ih =>
    cases pos with
    | none =>
      cases h
      exact hs
    | some x =>
      unfold scan at h
      split at h
      · cases h
      · rename_i s₁ hs₁
        cases h
        exact hbody s x _ _ hs hmeets.1 hs₁
      · rename_i s₁ hs₁
        exact ih (hbody s x _ _ hs hmeets.1 hs₁) (hmeets.2 s₁ hs₁) h

/-- A condition that an invariant gives, which every round keeps. -/
theorem ForEach.meets_of_invariant {s : σ} {xs : List α}
    (hround : ∀ s, ∀ x ∈ xs, I s → cond s x ∧ ∀ s', body s x = some (s', true) → I s')
    (hs : I s) : Meets body cond s xs := by
  induction xs generalizing s with
  | nil => trivial
  | cons x xs ih =>
    obtain ⟨hcond, hkeeps⟩ := hround s x List.mem_cons_self hs
    exact ⟨hcond, fun s' hs' =>
      ih (fun s y hy => hround s y (List.mem_cons_of_mem x hy)) (hkeeps s' hs')⟩

theorem Scan.meets_of_invariant
    (hround : ∀ s x, I s → cond s x ∧ ∀ s', body s x = some (s', true) → I s') {s : σ}
    (hs : I s) (n : ℕ) (pos : Option α) : Meets next body cond n s pos := by
  induction n generalizing s pos with
  | zero => cases pos <;> trivial
  | succ n ih =>
    cases pos with
    | none => trivial
    | some x =>
      obtain ⟨hcond, hkeeps⟩ := hround s x hs
      exact ⟨hcond, fun s' hs' => ih (hkeeps s' hs') _⟩

/-- Where the condition always holds, every round meets it. -/
theorem ForEach.meets_of_forall (hcond : ∀ s x, cond s x) (s : σ) (xs : List α) :
    Meets body cond s xs :=
  @ForEach.meets_of_invariant σ α body cond (fun _ => True) s xs
    (fun s x _ _ => ⟨hcond s x, fun _ _ => trivial⟩) trivial

theorem Scan.meets_of_forall (hcond : ∀ s x, cond s x) (n : ℕ) (s : σ) (pos : Option α) :
    Meets next body cond n s pos :=
  @Scan.meets_of_invariant σ α next body cond (fun _ => True)
    (fun s x _ => ⟨hcond s x, fun _ _ => trivial⟩) s trivial n pos

/-- **A condition that the outcome forces**, for the loop over a list: a round
that does not meet it leads to a state that no further round makes good. -/
theorem ForEach.meets_of_not_bad {Bad : σ → Prop}
    (hround : ∀ s x s' b, I s → body s x = some (s', b) → cond s x ∧ I s' ∨ b = true ∧ Bad s')
    (hbad : ∀ s x s' b, Bad s → body s x = some (s', b) → Bad s') {s s' : σ} {xs : List α}
    {b : Bool} (hs : I s) (h : forEach body s xs = some (s', b)) (hfin : ¬ Bad s') :
    Meets body cond s xs := by
  induction xs generalizing s with
  | nil => trivial
  | cons x xs ih =>
    unfold forEach at h
    split at h
    · cases h
    · rename_i s₁ hs₁
      rcases hround s x _ _ hs hs₁ with ⟨hcond, -⟩ | ⟨⟨⟩, -⟩
      exact ⟨hcond, fun s'' hs'' => by rw [hs₁] at hs''; cases hs''⟩
    · rename_i s₁ hs₁
      rcases hround s x _ _ hs hs₁ with ⟨hcond, hs'⟩ | ⟨-, hb⟩
      · exact ⟨hcond, fun s'' hs'' => by rw [hs₁] at hs''; cases hs''; exact ih hs' h⟩
      · exact absurd (forEach_invariant (fun s x s' b hI _ => hbad s x s' b hI) hb
          (ForEach.meets_of_forall (fun _ _ => trivial) s₁ xs) h) hfin

/-- The same for the loop over positions. -/
theorem Scan.meets_of_not_bad {Bad : σ → Prop}
    (hround : ∀ s x s' b, I s → body s x = some (s', b) → cond s x ∧ I s' ∨ b = true ∧ Bad s')
    (hbad : ∀ s x s' b, Bad s → body s x = some (s', b) → Bad s') {n : ℕ} {s s' : σ}
    {pos : Option α} {b : Bool} (hs : I s) (h : scan next body n s pos = some (s', b))
    (hfin : ¬ Bad s') : Meets next body cond n s pos := by
  induction n generalizing s pos with
  | zero => cases pos <;> trivial
  | succ n ih =>
    cases pos with
    | none => trivial
    | some x =>
      unfold scan at h
      split at h
      · cases h
      · rename_i s₁ hs₁
        rcases hround s x _ _ hs hs₁ with ⟨hcond, -⟩ | ⟨⟨⟩, -⟩
        exact ⟨hcond, fun s'' hs'' => by rw [hs₁] at hs''; cases hs''⟩
      · rename_i s₁ hs₁
        rcases hround s x _ _ hs hs₁ with ⟨hcond, hs'⟩ | ⟨-, hb⟩
        · exact ⟨hcond, fun s'' hs'' => by rw [hs₁] at hs''; cases hs''; exact ih hs' h⟩
        · exact absurd (scan_invariant (fun s x s' b hI _ => hbad s x s' b hI) hb
            (Scan.meets_of_forall (fun _ _ => trivial) n s₁ _) h) hfin

/-- One list after the other. -/
theorem forEach_append (s : σ) (xs ys : List α) : forEach body s (xs ++ ys) =
    match forEach body s xs with
    | some (s', true) => forEach body s' ys
    | r => r := by
  induction xs generalizing s with
  | nil => rfl
  | cons x xs ih =>
    rw [List.cons_append, forEach, forEach]
    rcases body s x with _ | ⟨s', _ | _⟩
    · rfl
    · rfl
    · exact ih s'

/-- A loop that succeeds has succeeded up to any element. -/
theorem forEach_append_true {s s' : σ} {xs ys : List α}
    (h : forEach body s (xs ++ ys) = some (s', true)) :
    ∃ s₁, forEach body s xs = some (s₁, true) ∧ forEach body s₁ ys = some (s', true) := by
  rw [forEach_append] at h
  rcases hxs : forEach body s xs with _ | ⟨s₁, _ | _⟩
  · rw [hxs] at h
    cases h
  · rw [hxs] at h
    cases h
  · rw [hxs] at h
    exact ⟨s₁, rfl, h⟩

/-- What is met by a loop, and by another one from there on. -/
theorem ForEach.Meets.append {s : σ} {xs ys : List α} (h : ForEach.Meets body cond s xs)
    (h' : ∀ s₁, forEach body s xs = some (s₁, true) → ForEach.Meets body cond s₁ ys) :
    ForEach.Meets body cond s (xs ++ ys) := by
  induction xs generalizing s with
  | nil => exact h' s rfl
  | cons x xs ih =>
    refine ⟨h.1, fun s₁ hround => ih (h.2 s₁ hround) (fun s₂ hloop => h' s₂ ?_)⟩
    rw [forEach, hround]
    exact hloop

/-- What a loop meets, it meets in its second half. -/
theorem ForEach.Meets.of_append {s s₁ : σ} {xs ys : List α}
    (h : ForEach.Meets body cond s (xs ++ ys)) (hloop : forEach body s xs = some (s₁, true)) :
    ForEach.Meets body cond s₁ ys := by
  induction xs generalizing s with
  | nil =>
    cases hloop
    exact h
  | cons x xs ih =>
    obtain ⟨s₂, hround, hrest⟩ := forEach_cons_true hloop
    exact ih (h.2 s₂ hround) hrest

/-- The elements may be made on the way. -/
theorem forEach_map {β : Type} (f : β → α) (s : σ) (xs : List β) :
    forEach body s (xs.map f) = forEach (fun s x => body s (f x)) s xs := by
  induction xs generalizing s with
  | nil => rfl
  | cons x xs ih =>
    rw [List.map_cons, forEach, forEach]
    rcases body s (f x) with _ | ⟨s', _ | _⟩
    · rfl
    · rfl
    · exact ih s'

/-- A loop in a loop runs over all pairs. -/
theorem forEach_flatMap {β : Type} (f : β → List α) (s : σ) (xs : List β) :
    forEach (fun s x => forEach body s (f x)) s xs = forEach body s (xs.flatMap f) := by
  induction xs generalizing s with
  | nil => rfl
  | cons x xs ih =>
    rw [List.flatMap_cons, forEach_append, forEach]
    rcases forEach body s (f x) with _ | ⟨s', _ | _⟩
    · rfl
    · rfl
    · exact ih s'

/-! ## Positions that stay -/

/-- The positions of a loop whose body does not move them. -/
def walk (next : σ → α → Option α) : ℕ → σ → Option α → Option (List α)
  | _, _, none => some []
  | 0, _, some _ => none
  | n + 1, s, some x => (walk next n s (next s x)).map (fun xs => x :: xs)

theorem walk_congr {s s' : σ} (h : ∀ x, next s' x = next s x) (n : ℕ) (pos : Option α) :
    walk next n s' pos = walk next n s pos := by
  induction n generalizing pos with
  | zero => cases pos <;> rfl
  | succ n ih =>
    cases pos with
    | none => rfl
    | some x => rw [walk, walk, h x, ih]

/-- **A loop over positions that its body does not move** is a loop over the list of
them. -/
theorem scan_eq_true_iff {s s' : σ}
    (hround : ∀ s x s', I s → body s x = some (s', true) → I s' ∧ ∀ y, next s' y = next s y)
    (hs : I s) {n : ℕ} {pos : Option α} : scan next body n s pos = some (s', true) ↔
      ∃ xs, walk next n s pos = some xs ∧ forEach body s xs = some (s', true) := by
  induction n generalizing s pos with
  | zero =>
    cases pos with
    | none =>
      refine ⟨fun h => ⟨[], rfl, h⟩, ?_⟩
      rintro ⟨xs, hxs, h⟩
      cases hxs
      exact h
    | some x =>
      refine iff_of_false nofun ?_
      rintro ⟨xs, hxs, -⟩
      cases hxs
  | succ n ih =>
    cases pos with
    | none =>
      refine ⟨fun h => ⟨[], rfl, h⟩, ?_⟩
      rintro ⟨xs, hxs, h⟩
      cases hxs
      exact h
    | some x =>
      have hbody : ∀ xs, forEach body s (x :: xs) = some (s', true) ↔
          ∃ s₁, body s x = some (s₁, true) ∧ forEach body s₁ xs = some (s', true) := by
        intro xs
        refine ⟨forEach_cons_true, ?_⟩
        rintro ⟨s₁, hs₁, hrest⟩
        rw [forEach, hs₁]
        exact hrest
      constructor
      · intro h
        obtain ⟨k, s₁, hk, hs₁, hrest⟩ := scan_some_true h
        cases hk
        obtain ⟨hI, hnext⟩ := hround s x s₁ hs hs₁
        obtain ⟨xs, hwalk, hxs⟩ := (ih hI).mp hrest
        rw [walk_congr hnext, hnext] at hwalk
        refine ⟨x :: xs, ?_, (hbody xs).mpr ⟨s₁, hs₁, hxs⟩⟩
        rw [walk, hwalk]
        rfl
      · rintro ⟨ys, hwalk, hys⟩
        obtain ⟨xs, hxs, rfl⟩ := Option.map_eq_some_iff.mp hwalk
        obtain ⟨s₁, hs₁, hrest⟩ := (hbody xs).mp hys
        obtain ⟨hI, hnext⟩ := hround s x s₁ hs hs₁
        rw [scan, hs₁]
        refine (ih hI).mpr ⟨xs, ?_, hrest⟩
        rw [walk_congr hnext, hnext, hxs]

end Loops
