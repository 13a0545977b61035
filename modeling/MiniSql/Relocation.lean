import Mathlib.Data.List.Nodup
import Mathlib.Logic.Equiv.Basic

/-!
# Things that are changed and moved

A store has a thing at each of some places. An algorithm goes over the things
that it is to change; it changes one at a time, and may put it to another
place on the way, which is free. A thing at a place is *due* to become
something, which may depend on the place: where the algorithm has passed
already nothing is to be done, elsewhere there is.

`Tracks` says that every thing that is to be changed is somewhere and due to
become what it is to become, and that the others are where they were. It is
kept by a step that leaves what is due to everything as it was
(`Tracks.move`), and in the end the things are those that they are to be,
counted as often as they occur (`Tracks.perm`).
-/

namespace Relocation

variable {ρ α : Type}

/-- A list of the places in use, each of them once, with the things there. -/
def Lists (m : ρ → Option α) (l : List (ρ × α)) : Prop :=
  (l.map Prod.fst).Nodup ∧ ∀ p a, (p, a) ∈ l ↔ m p = some a

variable {m m' m₀ : ρ → Option α} {l l' : List (ρ × α)} {p p' : ρ}

/-- Such a list is unique, up to its order. -/
theorem Lists.perm (h : Lists m l) (h' : Lists m l') : l.Perm l' :=
  (List.perm_ext_iff_of_nodup h.1.of_map h'.1.of_map).mpr
    (fun e => (h.2 e.1 e.2).trans (h'.2 e.1 e.2).symm)

/-- The places of a list, moved by a permutation, with other things. -/
theorem Lists.map (h : Lists m₀ l) (σ : Equiv.Perm ρ) {c : ρ × α → α}
    (hnone : ∀ r, m₀ r = none → m (σ r) = none)
    (hsome : ∀ r a, m₀ r = some a → m (σ r) = some (c (r, a))) :
    Lists m (l.map (fun e => (σ e.1, c e))) := by
  refine ⟨?_, fun p a => ?_⟩
  · have hfst : (l.map (fun e => (σ e.1, c e))).map Prod.fst = (l.map Prod.fst).map σ := by
      rw [List.map_map, List.map_map]
      rfl
    rw [hfst]
    exact h.1.map σ.injective
  · rw [List.mem_map]
    constructor
    · rintro ⟨⟨r, b⟩, he, heq⟩
      obtain ⟨rfl, rfl⟩ := Prod.mk.inj heq
      exact hsome r b ((h.2 r b).mp he)
    · intro hp
      obtain ⟨r, rfl⟩ := σ.surjective p
      cases hr : m₀ r with
      | none =>
        rw [hnone r hr] at hp
        cases hp
      | some b =>
        rw [hsome r b hr] at hp
        cases hp
        exact ⟨(r, b), (h.2 r b).mpr hr, rfl⟩

/-- Predicates of which one implies the other are the same on a list where
they hold equally often. -/
theorem of_countP_eq {β : Type} {P Q : β → Bool} {xs : List β} (himp : ∀ x ∈ xs, P x → Q x)
    (h : xs.countP P = xs.countP Q) : ∀ x ∈ xs, Q x → P x := by
  induction xs with
  | nil => nofun
  | cons y ys ih =>
    have hle := List.countP_mono_left (fun x hx => himp x (List.mem_cons_of_mem y hx))
    have hy := himp y List.mem_cons_self
    rw [List.countP_cons, List.countP_cons] at h
    intro x hx hQ
    have hsame : ys.countP P = ys.countP Q ∧ (Q y → P y) := by
      cases hP : P y with
      | true =>
        rw [hP, hy hP] at h
        exact ⟨Nat.add_right_cancel h, fun _ => rfl⟩
      | false =>
        cases hQy : Q y with
        | true =>
          rw [hP, hQy] at h
          simp only [Bool.false_eq_true, if_false, if_true] at h
          omega
        | false =>
          rw [hP, hQy] at h
          exact ⟨h, fun hc => hc⟩
    rcases List.mem_cons.mp hx with rfl | hx
    · exact hsame.2 hQ
    · exact ih (fun x hx => himp x (List.mem_cons_of_mem y hx)) hsame.1 x hx hQ

section Tracks

variable (m₀) (sel : ρ → Prop) (goal : α → α)

/-- No thing that is to stay as it is was at the place. -/
def Movable (p : ρ) : Prop := ∀ a, m₀ p = some a → sel p

/-- Every thing that is to be changed is somewhere, due to become what it is to
become, and the others are where they were. -/
def Tracks (due : ρ → α → α) (m : ρ → Option α) : Prop :=
  ∃ σ : Equiv.Perm ρ, ∀ r, (m₀ r = none → m (σ r) = none) ∧
    ∀ a, m₀ r = some a → (¬ sel r → σ r = r ∧ m r = some a) ∧
      (sel r → ∃ x, m (σ r) = some x ∧ due (σ r) x = goal a)

variable {m₀ sel goal} {due due' : ρ → α → α}

/-- Before anything is changed. -/
theorem tracks_self (h : ∀ r a, sel r → m₀ r = some a → due r a = goal a) :
    Tracks m₀ sel goal due m₀ :=
  ⟨Equiv.refl ρ, fun r => ⟨id, fun a ha =>
    ⟨fun _ => ⟨rfl, ha⟩, fun hr => ⟨a, ha, h r a hr ha⟩⟩⟩⟩

/-- What is to be changed is at no place of what is not. -/
theorem movable_of_tracked {σ : Equiv.Perm ρ} {r : ρ} (hr : sel r)
    (hσ : ∀ r a, m₀ r = some a → ¬ sel r → σ r = r) : Movable m₀ sel (σ r) := by
  intro a ha
  by_contra hnot
  rw [σ.injective (hσ (σ r) a ha hnot)] at hnot
  exact hnot hr

/-- **Another account of what is due.** -/
theorem Tracks.imp (h : Tracks m₀ sel goal due m)
    (hdue : ∀ q x a, Movable m₀ sel q → m q = some x → due q x = goal a → due' q x = goal a) :
    Tracks m₀ sel goal due' m := by
  obtain ⟨σ, hσ⟩ := h
  refine ⟨σ, fun r => ⟨(hσ r).1, fun a ha => ⟨((hσ r).2 a ha).1, fun hr => ?_⟩⟩⟩
  obtain ⟨x, hx, hgoal⟩ := ((hσ r).2 a ha).2 hr
  have hmov := movable_of_tracked hr (fun r a ha hnot => (((hσ r).2 a ha).1 hnot).1)
  exact ⟨x, hx, hdue _ x a hmov hx hgoal⟩

/-- **One step**: a thing is changed and put to a free place, which may be its
own, and everything is due to become what it was before. -/
theorem Tracks.move [DecidableEq ρ] (h : Tracks m₀ sel goal due m) {old new : α}
    (hp : m p = some old) (hmov : Movable m₀ sel p)
    (hfree : Function.update m p none p' = none)
    (hm' : m' = Function.update (Function.update m p none) p' (some new))
    (hnew : due' p' new = due p old)
    (hrest : ∀ q x, q ≠ p → q ≠ p' → Movable m₀ sel q → m q = some x → due' q x = due q x) :
    Tracks m₀ sel goal due' m' := by
  obtain ⟨σ, hσ⟩ := h
  have hother : ∀ q, q ≠ p → q ≠ p' → m' q = m q := fun q hqp hqp' => by
    rw [hm', Function.update_of_ne hqp', Function.update_of_ne hqp]
  have hused : ∀ q x, q ≠ p → m q = some x → q ≠ p' := fun q x hqp hq hqp' => by
    rw [← hqp', Function.update_of_ne hqp, hq] at hfree
    cases hfree
  have hto : m' p' = some new := by rw [hm', Function.update_self]
  refine ⟨σ.trans (Equiv.swap p p'), fun r =>
    ⟨fun hr => ?_, fun a ha => ⟨fun hnot => ?_, fun hr => ?_⟩⟩⟩
  · have hnone := (hσ r).1 hr
    have hne : σ r ≠ p := fun e => by
      rw [e, hp] at hnone
      cases hnone
    by_cases hσp : σ r = p'
    · have hpp : p ≠ p' := fun e => hne (hσp.trans e.symm)
      rw [Equiv.trans_apply, hσp, Equiv.swap_apply_right, hm', Function.update_of_ne hpp,
        Function.update_self]
    · rw [Equiv.trans_apply, Equiv.swap_apply_of_ne_of_ne hne hσp, hother _ hne hσp, hnone]
  · obtain ⟨hσr, hmr⟩ := ((hσ r).2 a ha).1 hnot
    have hne : r ≠ p := fun e => hnot (e ▸ hmov a (e ▸ ha))
    have hne' := hused r a hne hmr
    rw [Equiv.trans_apply, hσr, Equiv.swap_apply_of_ne_of_ne hne hne', hother r hne hne']
    exact ⟨rfl, hmr⟩
  · obtain ⟨x, hx, hgoal⟩ := ((hσ r).2 a ha).2 hr
    by_cases hσp : σ r = p
    · rw [hσp, hp] at hx
      cases hx
      rw [Equiv.trans_apply, hσp, Equiv.swap_apply_left]
      exact ⟨new, hto, hnew.trans (hσp ▸ hgoal)⟩
    · have hne' := hused _ x hσp hx
      have hmovr := movable_of_tracked hr (fun r a ha hnot => (((hσ r).2 a ha).1 hnot).1)
      rw [Equiv.trans_apply, Equiv.swap_apply_of_ne_of_ne hσp hne', hother _ hσp hne']
      exact ⟨x, hx, (hrest _ x hσp hne' hmovr hx).trans hgoal⟩

variable [DecidablePred sel]

/-- **In the end** everything is what it is to be. -/
theorem Tracks.perm (h : Tracks m₀ sel goal (fun _ x => x) m) (hl : Lists m₀ l)
    (hl' : Lists m l') :
    (l'.map Prod.snd).Perm (l.map (fun e => if sel e.1 then goal e.2 else e.2)) := by
  obtain ⟨σ, hσ⟩ := h
  have hlists := hl.map σ (m := m) (c := fun e => if sel e.1 then goal e.2 else e.2)
    (fun r => (hσ r).1) (fun r a ha => by
      by_cases hr : sel r
      · obtain ⟨x, hx, hgoal⟩ := ((hσ r).2 a ha).2 hr
        rw [hx, if_pos hr, ← hgoal]
      · obtain ⟨hσr, hmr⟩ := ((hσ r).2 a ha).1 hr
        rw [hσr, hmr, if_neg hr])
  have hperm := (hl'.perm hlists).map Prod.snd
  rwa [List.map_map] at hperm

/-- **Conversely**, where the things are those that they are to be, none of
those that were to be changed is left to be changed. -/
theorem Tracks.goal_eq_of_perm [DecidableEq α]
    (h : Tracks m₀ sel goal (fun _ x => goal x) m) (hidem : ∀ x, goal (goal x) = goal x)
    (hl : Lists m₀ l) (hl' : Lists m l')
    (hperm : (l'.map Prod.snd).Perm (l.map (fun e => if sel e.1 then goal e.2 else e.2)))
    {y : α} (hp : m p = some y) (hmov : Movable m₀ sel p) : goal y = y := by
  obtain ⟨σ, hσ⟩ := h
  have hlists := hl.map σ (m := m) (c := fun e => (m (σ e.1)).getD e.2)
    (fun r => (hσ r).1) (fun r a ha => by
      by_cases hr : sel r
      · obtain ⟨x, hx, -⟩ := ((hσ r).2 a ha).2 hr
        rw [hx, Option.getD_some]
      · obtain ⟨hσr, hmr⟩ := ((hσ r).2 a ha).1 hr
        rw [hσr, hmr, Option.getD_some])
  have hcontents := (hlists.perm hl').map Prod.snd
  rw [List.map_map] at hcontents
  have hcount := (hcontents.trans hperm).countP_eq (fun x => goal x = x)
  rw [List.countP_map, List.countP_map] at hcount
  have htarget : ∀ r a, sel r → goal (if sel r then goal a else a) = if sel r then goal a else a :=
    fun r a hr => by rw [if_pos hr, hidem]
  have hsettled := of_countP_eq (fun e he hP => ?_) hcount
  · obtain ⟨r, rfl⟩ := σ.surjective p
    cases hr : m₀ r with
    | none =>
      rw [(hσ r).1 hr] at hp
      cases hp
    | some a =>
      have hsel : sel r := by
        by_contra hnot
        have hσr := (((hσ r).2 a hr).1 hnot).1
        rw [hσr] at hmov
        exact hnot (hmov a hr)
      have hdone := hsettled (r, a) ((hl.2 r a).mpr hr) (decide_eq_true (htarget r a hsel))
      have hdone : goal ((m (σ r)).getD a) = (m (σ r)).getD a := of_decide_eq_true hdone
      rwa [hp, Option.getD_some] at hdone
  · refine decide_eq_true (?_ : goal (if sel e.1 then goal e.2 else e.2) = _)
    by_cases hr : sel e.1
    · exact htarget e.1 e.2 hr
    · obtain ⟨hσr, hmr⟩ := ((hσ e.1).2 e.2 ((hl.2 e.1 e.2).mp he)).1 hr
      have hP : goal ((m (σ e.1)).getD e.2) = (m (σ e.1)).getD e.2 := of_decide_eq_true hP
      rw [hσr, hmr, Option.getD_some] at hP
      show goal (if sel e.1 then goal e.2 else e.2) = if sel e.1 then goal e.2 else e.2
      rw [if_neg hr, hP]

end Tracks

end Relocation
