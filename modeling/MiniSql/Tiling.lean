import Mathlib.Logic.Function.Basic
import Mathlib.Data.Nat.Init
import Mathlib.Tactic.ByContra

/-!
# Intervals that fill a range

A family of intervals `[off i, off i + len i)`, some of them empty, of which
the others fill a range of natural numbers without overlapping. A program
that packs blocks at one end of a buffer keeps such a family in three ways:
it puts a new block in front (`Tiles.insert`), or gives a block another
length, sliding everything in front of it (`Tiles.resize`); a block is taken
out by giving it length zero.
-/

/-- The non-empty intervals of the family fill `[lo, hi)` without
overlapping. -/
structure Tiles {ι : Type} (lo hi : ℕ) (off len : ι → ℕ) : Prop where
  inside : ∀ i, 0 < len i → lo ≤ off i ∧ off i + len i ≤ hi
  disjoint : ∀ i j, i ≠ j → 0 < len i → 0 < len j →
    off i + len i ≤ off j ∨ off j + len j ≤ off i
  cover : ∀ a, lo ≤ a → a < hi → ∃ i, 0 < len i ∧ off i ≤ a ∧ a < off i + len i

namespace Tiles

variable {ι : Type} {lo hi : ℕ} {off len off' len' : ι → ℕ}

/-- An empty range has no intervals. -/
theorem empty : Tiles lo lo off (fun _ => 0) :=
  ⟨fun _ h => absurd h (Nat.lt_irrefl 0), fun _ _ _ h => absurd h (Nat.lt_irrefl 0),
    fun a h h' => absurd h (by omega)⟩

/-- Only the offsets of the non-empty intervals matter. -/
theorem congr (h : Tiles lo hi off len) (hlen : ∀ i, len' i = len i)
    (hoff : ∀ i, 0 < len i → off' i = off i) : Tiles lo hi off' len' := by
  obtain rfl : len' = len := funext hlen
  refine ⟨fun i hi' => ?_, fun i j hij hi' hj => ?_, fun a ha ha' => ?_⟩
  · rw [hoff i hi']
    exact h.inside i hi'
  · rw [hoff i hi', hoff j hj]
    exact h.disjoint i j hij hi' hj
  · obtain ⟨i, hi', hoi⟩ := h.cover a ha ha'
    exact ⟨i, hi', by rw [hoff i hi']; exact hoi⟩

/-- A new interval in front of all the others. -/
theorem insert (h : Tiles lo hi off len) {s : ι} {n : ℕ} (hs : len s = 0) (hn : 0 < n)
    (hlo : n ≤ lo) (hhi : lo ≤ hi) (hlens : len' s = n) (hlen : ∀ i, i ≠ s → len' i = len i)
    (hoffs : off' s = lo - n) (hoff : ∀ i, i ≠ s → 0 < len i → off' i = off i) :
    Tiles (lo - n) hi off' len' := by
  refine ⟨fun i hi' => ?_, fun i j hij hi' hj => ?_, fun a ha ha' => ?_⟩
  · by_cases his : i = s
    · rw [his, hoffs, hlens]
      omega
    · rw [hlen i his] at hi'
      have hin := h.inside i hi'
      rw [hoff i his hi', hlen i his]
      omega
  · by_cases his : i = s
    · have hjs : j ≠ s := fun e => hij (his.trans e.symm)
      rw [hlen j hjs] at hj
      have hin := h.inside j hj
      rw [his, hoffs, hlens, hoff j hjs hj, hlen j hjs]
      omega
    · rw [hlen i his] at hi'
      have hin := h.inside i hi'
      by_cases hjs : j = s
      · rw [hjs, hoffs, hlens, hoff i his hi', hlen i his]
        omega
      · rw [hlen j hjs] at hj
        rw [hoff i his hi', hlen i his, hoff j hjs hj, hlen j hjs]
        exact h.disjoint i j hij hi' hj
  · by_cases hin : lo ≤ a
    · obtain ⟨i, hi', hoi⟩ := h.cover a hin ha'
      have his : i ≠ s := fun e => by
        rw [e, hs] at hi'
        exact absurd hi' (Nat.lt_irrefl 0)
      exact ⟨i, by rw [hlen i his]; exact hi', by rw [hoff i his hi', hlen i his]; exact hoi⟩
    · exact ⟨s, by omega, by omega, by omega⟩

/-- The intervals in front of a given one end where it starts or before, the
others start where it ends or later. -/
theorem before_or_after (h : Tiles lo hi off len) {s i : ι} (hs : 0 < len s) (his : i ≠ s)
    (hi' : 0 < len i) :
    (off i < off s ∧ off i + len i ≤ off s) ∨ (off s ≤ off i ∧ off s + len s ≤ off i) := by
  rcases h.disjoint i s his hi' hs with hlt | hlt
  · exact .inl ⟨by omega, hlt⟩
  · exact .inr ⟨by omega, hlt⟩

/-- One interval gets another length, possibly zero, and what is in front of
it slides so that the family still ends where it did. -/
theorem resize (h : Tiles lo hi off len) {s : ι} {n : ℕ} (hs : 0 < len s)
    (hn : n ≤ lo + len s) (hlens : len' s = n) (hlen : ∀ i, i ≠ s → len' i = len i)
    (hoffs : 0 < n → off' s = off s + len s - n)
    (hbefore : ∀ i, i ≠ s → 0 < len i → off i < off s → off' i = off i + len s - n)
    (hafter : ∀ i, i ≠ s → 0 < len i → off s ≤ off i → off' i = off i) :
    Tiles (lo + len s - n) hi off' len' := by
  have hins := h.inside s hs
  refine ⟨fun i hi' => ?_, fun i j hij hi' hj => ?_, fun a ha ha' => ?_⟩
  · by_cases his : i = s
    · subst his
      have := hoffs (by omega)
      omega
    · have hpos : 0 < len i := by rwa [hlen i his] at hi'
      have hin := h.inside i hpos
      have hl := hlen i his
      rcases h.before_or_after hs his hpos with ⟨hlt, hle⟩ | ⟨hle, hle'⟩
      · have := hbefore i his hpos hlt
        omega
      · have := hafter i his hpos hle
        omega
  · by_cases his : i = s
    · subst his
      have hji : j ≠ i := Ne.symm hij
      have hposj : 0 < len j := by rwa [hlen j hji] at hj
      have hinj := h.inside j hposj
      have hoi := hoffs (by omega)
      have hlj := hlen j hji
      rcases h.before_or_after hs hji hposj with ⟨hlt, hle⟩ | ⟨hle, hle'⟩
      · have := hbefore j hji hposj hlt
        omega
      · have := hafter j hji hposj hle
        omega
    · have hposi : 0 < len i := by rwa [hlen i his] at hi'
      have hini := h.inside i hposi
      have hli := hlen i his
      by_cases hjs : j = s
      · subst hjs
        have hoj := hoffs (by omega)
        rcases h.before_or_after hs his hposi with ⟨hlt, hle⟩ | ⟨hle, hle'⟩
        · have := hbefore i his hposi hlt
          omega
        · have := hafter i his hposi hle
          omega
      · have hposj : 0 < len j := by rwa [hlen j hjs] at hj
        have hinj := h.inside j hposj
        have hlj := hlen j hjs
        have hdis := h.disjoint i j hij hposi hposj
        rcases h.before_or_after hs his hposi with ⟨hlt, hle⟩ | ⟨hle, hle'⟩ <;>
          rcases h.before_or_after hs hjs hposj with ⟨hlt', hle''⟩ | ⟨hle'', hle'''⟩
        · have := hbefore i his hposi hlt
          have := hbefore j hjs hposj hlt'
          omega
        · have := hbefore i his hposi hlt
          have := hafter j hjs hposj hle''
          omega
        · have := hafter i his hposi hle
          have := hbefore j hjs hposj hlt'
          omega
        · rw [hafter i his hposi hle, hafter j hjs hposj hle'', hli, hlj]
          exact hdis
  · -- behind the interval nothing moves, in front of it `a` was `len s - n` bytes earlier
    by_cases hbehind : off s + len s ≤ a
    · obtain ⟨i, hi', hoi⟩ := h.cover a (by omega) ha'
      have his : i ≠ s := fun e => by subst e; omega
      rcases h.before_or_after hs his hi' with ⟨hlt, hle⟩ | ⟨hle, hle'⟩
      · omega
      · exact ⟨i, by rwa [hlen i his], by rwa [hafter i his hi' hle, hlen i his]⟩
    · by_cases hfront : a < off s + len s - n
      · obtain ⟨i, hi', hoi⟩ := h.cover (a + n - len s) (by omega) (by omega)
        have his : i ≠ s := fun e => by subst e; omega
        rcases h.before_or_after hs his hi' with ⟨hlt, hle⟩ | ⟨hle, hle'⟩
        · refine ⟨i, by rwa [hlen i his], ?_⟩
          rw [hbefore i his hi' hlt, hlen i his]
          omega
        · omega
      · have hpos : 0 < n := by omega
        exact ⟨s, by omega, by rw [hoffs hpos]; omega, by rw [hoffs hpos]; omega⟩

end Tiles
