import MiniSql.BufferPoolFrames

/-!
# Deleting a page

`DeletePage` gives the page id back to the disk manager before it looks whether
the page is pinned. Where it then refuses, the id is free while a client still
holds the page. Where it goes on, it empties the frame and puts it on the free
list, and forgets the replacer, which tracks every resident frame without pins,
and the dirty bit.

So in a pool whose frames are accounted for it is all or nothing for no page
that is resident (`BufferPool.Tracks.deletesWhole_iff_eq_none`). The exact condition
(`BufferPool.deletesWhole_iff`) asks for a frame that no other part of the pool
knows of.
-/

namespace MiniSql

namespace BufferPool

variable {β : Type} [Zero β] {s : BufferPool β} {p : PageId}

/-- **A deletion is all or nothing**: where it returns `false`, the pool and the
disk are as before and the page keeps its id; where it returns `true`, the id is
free, the page is not resident, and the frame that it had is clean and free. -/
def DeletesWhole (s : BufferPool β) (p : PageId) : Prop :=
  ((s.deletePage p).2 = false →
    (s.deletePage p).1 = s ∧ p ∈ (s.deletePage p).1.disk.allocated) ∧
  ((s.deletePage p).2 = true →
    p ∉ (s.deletePage p).1.disk.allocated ∧ (s.deletePage p).1.pageTable p = none ∧
      ∀ f, s.pageTable p = some f →
        ((s.deletePage p).1.pages f).isDirty = false ∧ (s.deletePage p).1.FreeFrame f)

/-- The frame can be freed: it has no pins, it is clean, it is neither free nor
tracked, and it is the frame of no other page. -/
structure Freeable (s : BufferPool β) (p : PageId) (f : FrameId) : Prop where
  /-- `pin_count_` -/
  unpinned : (s.pages f).pinCount = 0
  /-- `is_dirty_` -/
  clean : (s.pages f).isDirty = false
  /-- `free_list_` -/
  notFree : f ∉ s.freeList
  /-- `replacer_` -/
  notTracked : f ∉ s.replacer.lruList
  /-- `page_table_` -/
  unshared : ∀ q, q ≠ p → s.pageTable q ≠ some f

variable {f : FrameId}

theorem DeletesWhole.freeable (h : s.DeletesWhole p) (hp : s.pageTable p = some f) :
    s.Freeable p f := by
  unfold DeletesWhole at h
  rcases s.deletePage_cases p with ⟨hnone, -⟩ | ⟨g, hg, hcases⟩
  · rw [hnone] at hp
    cases hp
  cases Option.some.inj (hg.symm.trans hp)
  rcases hcases with ⟨-, hs⟩ | ⟨hpin, hs⟩
  · -- The page is pinned, and its id has been given back.
    rw [hs] at h
    exact (Finset.notMem_erase p _ (h.1 rfl).2).elim
  · rw [hs] at h
    obtain ⟨-, -, hframe⟩ := h.2 rfl
    obtain ⟨hclean, hcount, hshared, htracked⟩ := hframe f hp
    refine ⟨hpin, ?_, ?_, htracked, fun q hq hqf => hshared q ?_⟩
    · simpa only [Function.update_self] using hclean
    · rw [List.count_append, List.count_singleton_self] at hcount
      exact List.count_eq_zero.mp (Nat.succ.inj hcount)
    · show Function.update s.pageTable p none q = some f
      rw [Function.update_of_ne hq, hqf]

theorem deletesWhole_of_eq_none (h : s.pageTable p = none) : s.DeletesWhole p := by
  unfold DeletesWhole
  rcases s.deletePage_cases p with ⟨-, hs⟩ | ⟨f, hp, -⟩
  · rw [hs, h]
    exact ⟨nofun, fun _ => ⟨Finset.notMem_erase p _, rfl, nofun⟩⟩
  · rw [h] at hp
    cases hp

theorem Freeable.deletesWhole (h : s.Freeable p f) (hp : s.pageTable p = some f) :
    s.DeletesWhole p := by
  unfold DeletesWhole
  rcases s.deletePage_cases p with ⟨hnone, -⟩ | ⟨g, hg, hcases⟩
  · rw [hnone] at hp
    cases hp
  cases Option.some.inj (hg.symm.trans hp)
  rcases hcases with ⟨hpin, -⟩ | ⟨-, hs⟩
  · exact (hpin h.unpinned).elim
  rw [hs]
  refine ⟨nofun, fun _ => ⟨Finset.notMem_erase p _, Function.update_self .., fun g hgp => ?_⟩⟩
  cases Option.some.inj (hgp.symm.trans hp)
  refine ⟨?_, ?_, fun q hq => ?_, h.notTracked⟩
  · simpa only [Function.update_self] using h.clean
  · rw [List.count_append, List.count_singleton_self, List.count_eq_zero.mpr h.notFree]
  · have hq : Function.update s.pageTable p none q = some f := hq
    by_cases hqp : q = p
    · rw [hqp, Function.update_self] at hq
      cases hq
    · rw [Function.update_of_ne hqp] at hq
      exact h.unshared q hqp hq

/-- **When a deletion is all or nothing**: exactly when the page is not resident,
or its frame can be freed. -/
theorem deletesWhole_iff (s : BufferPool β) (p : PageId) :
    s.DeletesWhole p ↔ ∀ f, s.pageTable p = some f → s.Freeable p f := by
  refine ⟨fun h f hp => h.freeable hp, fun h => ?_⟩
  cases hp : s.pageTable p with
  | none => exact deletesWhole_of_eq_none hp
  | some f => exact (h f hp).deletesWhole hp

/-- **In a pool whose frames are accounted for** a deletion is all or nothing
only where there is nothing to delete. -/
theorem Tracks.deletesWhole_iff_eq_none (h : s.Tracks) :
    s.DeletesWhole p ↔ s.pageTable p = none := by
  refine ⟨fun hwhole => ?_, deletesWhole_of_eq_none⟩
  refine Option.eq_none_iff_forall_not_mem.mpr (fun f hf => ?_)
  obtain ⟨hlt, -, hfree, -⟩ := h.sound.resident p f hf
  have hfreeable := hwhole.freeable hf
  exact hfreeable.notTracked ((h.tracked f).mpr ⟨hlt, hfree, hfreeable.unpinned⟩)

/-- **A pinned page loses its id**: `DeletePage` refuses, and the next `NewPage`
is given the id of the page. -/
theorem not_deletesWhole : ¬ ∀ (n : ℕ) (s : BufferPool ℕ) (p : PageId), 1 ≤ n →
    Machine.Reaches (step Allocator.bump) (fun _ _ => True) (init n) s → s.DeletesWhole p := by
  intro hall
  let s₁ : BufferPool ℕ := ((init 2).newPage Allocator.bump).1
  have h₁ : Machine.Reaches (step Allocator.bump) (fun _ _ => True) (init 2) s₁ :=
    .next (i := .newPage) .init trivial rfl
  have hrefused : (s₁.deletePage 0).2 = false ∧
      0 ∉ (s₁.deletePage 0).1.disk.allocated ∧
      ((s₁.deletePage 0).1.newPage Allocator.bump).2 = some (0, 0) := by decide
  exact hrefused.2.1 ((hall 2 s₁ 0 (by decide) h₁).1 hrefused.1).2

end BufferPool

end MiniSql
