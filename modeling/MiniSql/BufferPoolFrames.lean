import MiniSql.BufferPoolSound
import Mathlib.Data.Finset.Lattice.Fold
import Mathlib.Order.Lattice.Nat

/-!
# Where the frames are

Two things are expected of the frames of a pool. Each of them is free, or
evictable, or pinned, and in no two of these at once
(`BufferPool.FramesAccounted`); and a pinned page is never taken away
(`BufferPool.PinnedStays`, `BufferPool.FullRefuses`).

Neither is true of all runs. A `DeletePage` of a resident page puts its frame
on the free list and leaves it in the replacer, from where it can be evicted
after it has been given out again; a `NewPage` that evicts leaves the old
page in the table; a `FetchPage` with nothing to evict takes any frame.
`KeepsAccounts` and `SparesPinned` are the conditions on the single call
under which a run stays clear of these, and every state of such a run is as
expected (`framesAccounted_of_keepsAccounts`, `pinned_of_sparesPinned`).
-/

namespace MiniSql

/-- An allocator: one more than every id in use. -/
def Allocator.bump : Allocator where
  next s := (s.sup (fun p => p.toNat + 1) : ℕ)
  fresh s hmem := by
    have hle := Finset.le_sup (f := fun p : PageId => p.toNat + 1) hmem
    simp only [Int.toNat_natCast] at hle
    omega
  valid s := Int.natCast_nonneg _

namespace BufferPool

variable {β : Type} [Zero β] {s : BufferPool β}

/-! ## Accounting for every frame -/

/-- A free frame: on the free list exactly once, listed for no page and not
tracked by the replacer. -/
def FreeFrame (s : BufferPool β) (f : FrameId) : Prop :=
  s.freeList.count f = 1 ∧ (∀ p, s.pageTable p ≠ some f) ∧ f ∉ s.replacer.lruList

/-- An evictable frame: tracked exactly once, resident without pins and not
on the free list. -/
def EvictableFrame (s : BufferPool β) (f : FrameId) : Prop :=
  s.replacer.lruList.count f = 1 ∧ (∃ p, s.pageTable p = some f) ∧
    (s.pages f).pinCount = 0 ∧ f ∉ s.freeList

/-- A pinned frame: resident with pins, in neither list. -/
def PinnedFrame (s : BufferPool β) (f : FrameId) : Prop :=
  (∃ p, s.pageTable p = some f) ∧ 0 < (s.pages f).pinCount ∧ f ∉ s.freeList ∧
    f ∉ s.replacer.lruList

/-- Every frame is in exactly one of the three classes and the page table is
injective; so `NewPage` gives up only when every frame is pinned. -/
def FramesAccounted (A : Allocator) (s : BufferPool β) : Prop :=
  (∀ f < s.poolSize, s.FreeFrame f ∨ s.EvictableFrame f ∨ s.PinnedFrame f) ∧
    (∀ p q f, s.pageTable p = some f → s.pageTable q = some f → p = q) ∧
    ((s.newPage A).2 = none → ∀ f < s.poolSize, 0 < (s.pages f).pinCount)

/-- The invariant behind it: a sound pool whose replacer tracks exactly the
resident frames without pins. -/
structure Tracks (s : BufferPool β) : Prop where
  sound : s.Sound
  tracked : ∀ f, f ∈ s.replacer.lruList ↔
    f < s.poolSize ∧ f ∉ s.freeList ∧ (s.pages f).pinCount = 0

/-- A regular call that deletes no resident page without pins. -/
def KeepsAccounts (A : Allocator) (s : BufferPool β) : PoolCall β → Prop
  | .deletePage p => ∀ f, s.pageTable p = some f → (s.pages f).pinCount ≠ 0
  | call => s.Regular A call

omit [Zero β] in
/-- A frame leaves the free list or the replacer and is pinned. -/
theorem tracked_of_pinned {f : FrameId} {r : LruReplacer} (page : Page β)
    (h : s.Tracks) (hr : ∀ g, g ∈ r.lruList ↔ g ≠ f ∧ g ∈ s.replacer.lruList)
    (hpin : page.pinCount ≠ 0) (g : FrameId) :
    g ∈ r.lruList ↔ g < s.poolSize ∧ g ∉ s.freeList.erase f ∧
      (Function.update s.pages f page g).pinCount = 0 := by
  rw [hr]
  by_cases hgf : g = f
  · subst hgf
    rw [Function.update_self]
    exact ⟨fun hg => absurd rfl hg.1, fun hg => absurd hg.2.2 hpin⟩
  · rw [Function.update_of_ne hgf, List.mem_erase_of_ne hgf, ← h.tracked g]
    exact ⟨And.right, fun hg => ⟨hgf, hg⟩⟩

omit [Zero β] in
/-- Changing a frame but for its pins changes nothing for the replacer. -/
theorem Tracks.retouch (h : s.Tracks) {f : FrameId} {page : Page β} {d : Disk β}
    (hsound : (⟨s.poolSize, Function.update s.pages f page, d, s.pageTable, s.replacer,
      s.freeList⟩ : BufferPool β).Sound)
    (hpin : page.pinCount = (s.pages f).pinCount) :
    (⟨s.poolSize, Function.update s.pages f page, d, s.pageTable, s.replacer,
      s.freeList⟩ : BufferPool β).Tracks := by
  refine ⟨hsound, fun g => (h.tracked g).trans ?_⟩
  by_cases hgf : g = f
  · subst hgf
    simp only [Function.update_self, hpin]
  · simp only [Function.update_of_ne hgf]

/-- A call that keeps accounts keeps the replacer in step with the frames. -/
theorem Tracks.step (h : s.Tracks) {A : Allocator} {call : PoolCall β}
    (hk : s.KeepsAccounts A call) {s' : BufferPool β} {a : PoolAnswer}
    (hs : s.step A call = some (s', a)) : s'.Tracks := by
  cases call with
  | newPage =>
    cases hs
    refine ⟨h.sound.newPage hk, ?_⟩
    rcases newPage_cases h.sound hk with ⟨-, -, hs⟩ | ⟨f, hl, -, hs⟩
    · rw [hs]
      exact h.tracked
    · rw [hs]
      have hfree : f ∈ s.freeList := List.mem_of_getLast? hl
      refine tracked_of_pinned _ h (fun g => ⟨fun hg => ⟨?_, hg⟩, And.right⟩) one_ne_zero
      exact fun e => ((h.tracked g).mp hg).2.1 (e ▸ hfree)
  | fetchPage p garbage =>
    obtain ⟨⟨t, f⟩, hf, ht⟩ := Option.map_eq_some_iff.mp hs
    cases ht
    have hvic : s.replacer.lruList.getLast? = some f → (s.pages f).pinCount = 0 :=
      fun hl => ((h.tracked f).mp (List.mem_of_getLast? hl)).2.2
    refine ⟨h.sound.fetchPage (A := A) hk (fun _ _ hl => hvic hl) hf, ?_⟩
    rcases fetchPage_cases h.sound hf with ⟨hp, rfl⟩ | ⟨-, -, hl, rfl⟩ |
      ⟨-, -, -, hl, hs'⟩ | ⟨hn, hnil, hempty⟩
    · obtain ⟨-, -, hnf, -, hcnt⟩ := h.sound.resident p f hp
      have herase : s.freeList.erase f = s.freeList := List.erase_of_not_mem hnf
      have hne : (s.pages f).pinCount + 1 ≠ 0 := by omega
      have hall := tracked_of_pinned (f := f) (r := s.replacer.pin f)
        { s.pages f with pinCount := (s.pages f).pinCount + 1 } h
        (fun g => h.sound.replacer.mem_pin) hne
      rw [herase] at hall
      exact hall
    · have hfree : f ∈ s.freeList := List.mem_of_getLast? hl
      refine tracked_of_pinned _ h (fun g => ⟨fun hg => ⟨?_, hg⟩, And.right⟩) one_ne_zero
      exact fun e => ((h.tracked g).mp hg).2.1 (e ▸ hfree)
    · rw [hs' (hvic hl)]
      exact tracked_of_pinned _ h (fun g => h.sound.replacer.mem_pin) one_ne_zero
    · exact absurd hempty (hk hn hnil)
  | unpinPage p d =>
    cases hs
    refine ⟨h.sound.unpinPage p d, ?_⟩
    rcases unpinPage_cases h.sound p d with ⟨-, hs⟩ | ⟨f, hp, hs⟩
    · rw [hs]
      exact h.tracked
    · rw [hs]
      obtain ⟨hlt, -, hnf, -, hcnt⟩ := h.sound.resident p f hp
      intro g
      show g ∈ (ite _ _ _ : LruReplacer).lruList ↔ _
      by_cases hz : lessPin (s.pages f).pinCount = 0
      · rw [if_pos hz, h.sound.replacer.mem_unpin (h.sound.maxSize ▸ hlt)]
        by_cases hgf : g = f
        · subst hgf
          simp only [Function.update_self]
          exact ⟨fun _ => ⟨hlt, hnf, hz⟩, fun _ => .inl trivial⟩
        · simp only [Function.update_of_ne hgf, ← h.tracked g]
          exact ⟨fun hg => hg.resolve_left hgf, .inr⟩
      · rw [if_neg hz]
        by_cases hgf : g = f
        · subst hgf
          simp only [Function.update_self]
          refine ⟨fun hg => ?_, fun hg => absurd hg.2.2 hz⟩
          have h0 := ((h.tracked g).mp hg).2.2
          rw [h0] at hz
          exact absurd rfl hz
        · simp only [Function.update_of_ne hgf]
          exact h.tracked g
  | flushPage p =>
    cases hs
    rcases s.flushPage_cases p with ⟨-, hs⟩ | ⟨f, hp, hs⟩
    · rw [hs]
      exact h
    · have hsound := h.sound.flushPage p
      rw [hs] at hsound ⊢
      exact h.retouch hsound rfl
  | deletePage p =>
    cases hs
    refine ⟨h.sound.deletePage p, ?_⟩
    rcases s.deletePage_cases p with ⟨-, hs⟩ | ⟨f, hp, ⟨-, hs⟩ | ⟨hpin, -⟩⟩
    · rw [hs]
      exact h.tracked
    · rw [hs]
      exact h.tracked
    · exact absurd hpin (hk f hp)
  | writePage p data =>
    cases hs
    rcases s.writePage_cases p data with ⟨-, hs⟩ | ⟨f, hp, hs⟩
    · rw [hs]
      exact h
    · have hsound := h.sound.writePage p data
      rw [hs] at hsound ⊢
      exact h.retouch hsound rfl

theorem tracks_init (n : ℕ) : (init n : BufferPool β).Tracks :=
  ⟨sound_init n, fun _ => ⟨nofun, fun h => absurd (List.mem_range.mpr h.1) h.2.1⟩⟩

/-- In such a pool every frame is accounted for. -/
theorem Tracks.framesAccounted (h : s.Tracks) (A : Allocator) : s.FramesAccounted A := by
  have hclass : ∀ f < s.poolSize, s.FreeFrame f ∨ s.EvictableFrame f ∨ s.PinnedFrame f := by
    intro f hf
    by_cases hfree : f ∈ s.freeList
    · refine .inl ⟨List.count_eq_one_of_mem h.sound.freeNodup hfree, ?_, ?_⟩
      · exact fun p hp => (h.sound.resident p f hp).2.2.1 hfree
      · exact fun hm => ((h.tracked f).mp hm).2.1 hfree
    · have hown := h.sound.owned f hf hfree
      by_cases hpin : (s.pages f).pinCount = 0
      · have hmem : f ∈ s.replacer.lruList := (h.tracked f).mpr ⟨hf, hfree, hpin⟩
        exact .inr (.inl ⟨List.count_eq_one_of_mem h.sound.replacer.nodup hmem, ⟨_, hown⟩,
          hpin, hfree⟩)
      · have hcnt := (h.sound.resident _ f hown).2.2.2.2
        exact .inr (.inr ⟨⟨_, hown⟩, lt_of_le_of_ne hcnt (Ne.symm hpin), hfree,
          fun hm => hpin ((h.tracked f).mp hm).2.2⟩)
  refine ⟨hclass, fun p q f hp hq => h.sound.pageTable_inj hp hq, fun hnone f hf => ?_⟩
  -- no page was handed out, so neither list had a frame to offer
  have hnil : s.freeList = [] := by
    rcases hl : s.freeList.getLast? with _ | g
    · exact List.getLast?_eq_none_iff.mp hl
    · simp only [newPage, hl] at hnone
      cases hnone
  have hempty : s.replacer.lruList = [] := by
    rcases h.sound.replacer.victim_eq with ⟨hempty, -⟩ | ⟨g, -, hvic⟩
    · exact hempty
    · simp only [newPage, hnil, List.getLast?_nil, hvic] at hnone
      split at hnone <;> cases hnone
  rcases hclass f hf with hfree | hevict | hpinned
  · exact absurd hfree.1 (by rw [hnil]; simp)
  · exact absurd hevict.1 (by rw [hempty]; simp)
  · exact hpinned.2.1

/-- **Every frame is accounted for** in every state of a run whose calls are
regular and delete no resident page without pins. -/
theorem framesAccounted_of_keepsAccounts (A : Allocator) (n : ℕ) (s : BufferPool β)
    (hs : Machine.Reaches (step A) (KeepsAccounts A) (init n) s) : s.FramesAccounted A :=
  (hs.invariant (tracks_init n) (fun _ _ _ _ h hk hstep => h.step hk hstep)).framesAccounted A

/-- A pool of one frame whose page has been created, unpinned and fetched. -/
theorem framesAccounted_of_keepsAccounts_fetched :
    ∃ s : BufferPool ℕ, s.pageTable 0 = some 0 ∧ s.FramesAccounted Allocator.bump := by
  let s₁ : BufferPool ℕ := ((init 1).newPage Allocator.bump).1
  let s₂ : BufferPool ℕ := (s₁.unpinPage 0 false).1
  have hreg : Regular Allocator.bump (init 1 : BufferPool ℕ) .newPage := ⟨fun _ => rfl, nofun⟩
  have h₁ : Machine.Reaches (step Allocator.bump) (KeepsAccounts Allocator.bump) (init 1) s₁ :=
    .next (i := .newPage) .init hreg rfl
  have h₂ : Machine.Reaches (step Allocator.bump) (KeepsAccounts Allocator.bump) (init 1) s₂ :=
    .next (i := .unpinPage 0 false) h₁ trivial rfl
  exact ⟨s₂, by decide, framesAccounted_of_keepsAccounts Allocator.bump 1 s₂ h₂⟩

/-- Creating a page, unpinning it and deleting it puts its frame on the free
list while the replacer still tracks it. -/
theorem not_framesAccounted_of_deletePage :
    ¬ ∀ (n : ℕ) (s : BufferPool ℕ), 1 ≤ n →
      Machine.Reaches (step Allocator.bump) (fun _ _ => True) (init n) s →
      s.FramesAccounted Allocator.bump := by
  intro hall
  let s₁ : BufferPool ℕ := ((init 1).newPage Allocator.bump).1
  let s₂ : BufferPool ℕ := (s₁.unpinPage 0 false).1
  let s₃ : BufferPool ℕ := (s₂.deletePage 0).1
  have h₃ : Machine.Reaches (step Allocator.bump) (fun _ _ => True) (init 1) s₃ :=
    .next (i := .deletePage 0)
      (.next (i := .unpinPage 0 false) (.next (i := .newPage) .init trivial rfl) trivial rfl)
      trivial rfl
  have hmem : 0 ∈ s₃.freeList ∧ 0 ∈ s₃.replacer.lruList := by decide
  rcases (hall 1 s₃ le_rfl h₃).1 0 (by decide) with hf | he | hp
  · exact hf.2.2 hmem.2
  · exact he.2.2.2 hmem.1
  · exact hp.2.2.1 hmem.1

/-! ## Pinned pages -/

end BufferPool

/-- A call that is not about the page: a fetch or a deletion of another one,
or the creation of a page. -/
def PoolCall.Spares {β : Type} (p : PageId) : PoolCall β → Prop
  | .newPage => True
  | .fetchPage q _ => q ≠ p
  | .deletePage q => q ≠ p
  | _ => False

/-- A call that needs a frame for a page: the creation of one, or a fetch of
one that is not resident. -/
def PoolCall.NeedsFrame {β : Type} (s : BufferPool β) : PoolCall β → Prop
  | .newPage => True
  | .fetchPage q _ => s.pageTable q = none
  | _ => False

namespace BufferPool

variable {β : Type} [Zero β] {s : BufferPool β}

/-- The call takes no pinned page away: the page keeps its frame, and the
frame its page id and its bytes. -/
def PinnedStays (A : Allocator) (s : BufferPool β) (call : PoolCall β) : Prop :=
  ∀ p f, s.pageTable p = some f → 0 < (s.pages f).pinCount → call.Spares p →
    ∀ s' a, s.step A call = some (s', a) →
      s'.pageTable p = some f ∧ (s'.pages f).pageId = (s.pages f).pageId ∧
        (s'.pages f).data = (s.pages f).data

/-- Where no frame is free and none is evictable, a call that needs a frame
reports failure and changes neither the table nor the frames nor the disk. -/
def FullRefuses (A : Allocator) (s : BufferPool β) (call : PoolCall β) : Prop :=
  s.freeList = [] → s.replacer.lruList = [] → call.NeedsFrame s →
    ∀ s' a, s.step A call = some (s', a) →
      a = .page none ∧ s'.pageTable = s.pageTable ∧ s'.pages = s.pages ∧ s'.disk = s.disk

/-- A regular call that reuses no frame from the free list while the replacer
still tracks it. -/
def SparesPinned (A : Allocator) (s : BufferPool β) (call : PoolCall β) : Prop :=
  s.Regular A call ∧
    (call.NeedsFrame s → ∀ f, s.freeList.getLast? = some f → f ∉ s.replacer.lruList)

/-- The invariant behind it: a sound pool whose replacer tracks no pinned
frame. -/
structure TracksUnpinned (s : BufferPool β) : Prop where
  sound : s.Sound
  unpinned : ∀ f ∈ s.replacer.lruList, (s.pages f).pinCount = 0

omit [Zero β] in
/-- A frame that the replacer does not track may get any number of pins. -/
theorem unpinned_update (h : s.TracksUnpinned) {f : FrameId} {r : LruReplacer} {page : Page β}
    (hr : ∀ g ∈ r.lruList, g ∈ s.replacer.lruList)
    (hf : f ∈ r.lruList → page.pinCount = 0) :
    ∀ g ∈ r.lruList, (Function.update s.pages f page g).pinCount = 0 := by
  intro g hg
  by_cases hgf : g = f
  · subst hgf
    rw [Function.update_self]
    exact hf hg
  · rw [Function.update_of_ne hgf]
    exact h.unpinned g (hr g hg)

theorem TracksUnpinned.step (h : s.TracksUnpinned) {A : Allocator} {call : PoolCall β}
    (hk : s.SparesPinned A call) {s' : BufferPool β} {a : PoolAnswer}
    (hs : s.step A call = some (s', a)) : s'.TracksUnpinned := by
  cases call with
  | newPage =>
    cases hs
    refine ⟨h.sound.newPage hk.1, ?_⟩
    rcases newPage_cases h.sound hk.1 with ⟨-, -, hs⟩ | ⟨f, hl, -, hs⟩
    · rw [hs]
      exact h.unpinned
    · rw [hs]
      exact unpinned_update h (fun _ hg => hg) (fun hf => absurd hf (hk.2 trivial f hl))
  | fetchPage p garbage =>
    obtain ⟨⟨t, f⟩, hf, ht⟩ := Option.map_eq_some_iff.mp hs
    cases ht
    have hvic : s.replacer.lruList.getLast? = some f → (s.pages f).pinCount = 0 :=
      fun hl => h.unpinned f (List.mem_of_getLast? hl)
    have hpinned : ∀ {page : Page β}, ∀ g ∈ (s.replacer.pin f).lruList,
        (Function.update s.pages f page g).pinCount = 0 := by
      refine fun {page} => unpinned_update h (fun g hg => (h.sound.replacer.mem_pin.mp hg).2) ?_
      exact fun hf => absurd rfl (h.sound.replacer.mem_pin.mp hf).1
    refine ⟨h.sound.fetchPage (A := A) hk.1 (fun _ _ hl => hvic hl) hf, ?_⟩
    rcases fetchPage_cases h.sound hf with ⟨-, rfl⟩ | ⟨hn, -, hl, rfl⟩ |
      ⟨-, -, -, hl, hs'⟩ | ⟨hn, hnil, hempty⟩
    · exact hpinned
    · exact unpinned_update h (fun _ hg => hg) (fun hf => absurd hf (hk.2 hn f hl))
    · rw [hs' (hvic hl)]
      exact hpinned
    · exact absurd hempty (hk.1 hn hnil)
  | unpinPage p d =>
    cases hs
    refine ⟨h.sound.unpinPage p d, ?_⟩
    rcases unpinPage_cases h.sound p d with ⟨-, hs⟩ | ⟨f, hp, hs⟩
    · rw [hs]
      exact h.unpinned
    · rw [hs]
      have hlt := (h.sound.resident p f hp).1
      intro g hg
      have hg : g ∈ (ite (lessPin (s.pages f).pinCount = 0) (s.replacer.unpin f)
        s.replacer).lruList := hg
      by_cases hgf : g = f
      · subst hgf
        simp only [Function.update_self]
        by_cases hz : lessPin (s.pages g).pinCount = 0
        · exact hz
        · rw [if_neg hz] at hg
          rw [h.unpinned g hg] at hz
          exact absurd rfl hz
      · simp only [Function.update_of_ne hgf]
        split at hg
        · exact h.unpinned g (((h.sound.replacer.mem_unpin (h.sound.maxSize ▸ hlt)).mp
            hg).resolve_left hgf)
        · exact h.unpinned g hg
  | flushPage p =>
    cases hs
    refine ⟨h.sound.flushPage p, ?_⟩
    rcases s.flushPage_cases p with ⟨-, hs⟩ | ⟨f, hp, hs⟩
    · rw [hs]
      exact h.unpinned
    · rw [hs]
      exact unpinned_update h (fun _ hg => hg) (h.unpinned f)
  | deletePage p =>
    cases hs
    refine ⟨h.sound.deletePage p, ?_⟩
    rcases s.deletePage_cases p with ⟨-, hs⟩ | ⟨f, hp, ⟨-, hs⟩ | ⟨-, hs⟩⟩
    · rw [hs]
      exact h.unpinned
    · rw [hs]
      exact h.unpinned
    · rw [hs]
      exact unpinned_update h (fun _ hg => hg) (h.unpinned f)
  | writePage p data =>
    cases hs
    refine ⟨h.sound.writePage p data, ?_⟩
    rcases s.writePage_cases p data with ⟨-, hs⟩ | ⟨f, hp, hs⟩
    · rw [hs]
      exact h.unpinned
    · rw [hs]
      exact unpinned_update h (fun _ hg => hg) (h.unpinned f)

omit [Zero β] in
/-- Claiming a frame that is not pinned leaves a pinned page where it is. -/
theorem pinned_of_claim (h : s.Sound) {p q : PageId} {f g : FrameId} {page : Page β}
    (hp : s.pageTable p = some f) (hqp : q ≠ p) (hg : g < s.poolSize) (hgf : g ≠ f) :
    Function.update (Function.update s.pageTable (s.pages g).pageId none) q (some g) p = some f ∧
      (Function.update s.pages g page f).pageId = (s.pages f).pageId ∧
      (Function.update s.pages g page f).data = (s.pages f).data := by
  have hid : (s.pages g).pageId ≠ p := fun e => by
    rcases h.pageTable_pageId hg with ⟨-, hn⟩ | ⟨-, hsome⟩
    · rw [e, hp] at hn
      cases hn
    · rw [e, hp] at hsome
      exact hgf (Option.some.inj hsome).symm
  rw [Function.update_of_ne (Ne.symm hqp), Function.update_of_ne (Ne.symm hid),
    Function.update_of_ne (Ne.symm hgf)]
  exact ⟨hp, rfl, rfl⟩

/-- A call that spares the pinned takes no pinned page away. -/
theorem TracksUnpinned.pinnedStays (h : s.TracksUnpinned) {A : Allocator} {call : PoolCall β}
    (hk : s.SparesPinned A call) : s.PinnedStays A call := by
  intro p f hp hpos hspares s' a hs
  have hnf := (h.sound.resident p f hp).2.2.1
  cases call with
  | newPage =>
    cases hs
    rcases newPage_cases h.sound hk.1 with ⟨-, -, hs⟩ | ⟨g, hl, hnone, hs⟩
    · rw [hs]
      exact ⟨hp, rfl, rfl⟩
    · have hgfree : g ∈ s.freeList := List.mem_of_getLast? hl
      rw [hs]
      exact pinned_of_claim h.sound hp (fun e => by rw [e, hp] at hnone; cases hnone)
        (h.sound.free g hgfree).1 (fun e => hnf (e ▸ hgfree))
  | fetchPage q garbage =>
    obtain ⟨⟨t, g⟩, hg, ht⟩ := Option.map_eq_some_iff.mp hs
    cases ht
    rcases fetchPage_cases h.sound hg with ⟨hq, rfl⟩ | ⟨-, -, hl, rfl⟩ |
      ⟨-, -, -, hl, hs'⟩ | ⟨hn, hnil, hempty⟩
    · have hgf : f ≠ g := fun e => hspares (h.sound.pageTable_inj (e ▸ hq) hp)
      simp only [Function.update_of_ne hgf]
      exact ⟨hp, trivial, trivial⟩
    · have hgfree : g ∈ s.freeList := List.mem_of_getLast? hl
      exact pinned_of_claim h.sound hp hspares (h.sound.free g hgfree).1
        (fun e => hnf (e ▸ hgfree))
    · have hzero := h.unpinned g (List.mem_of_getLast? hl)
      rw [hs' hzero]
      refine pinned_of_claim h.sound hp hspares (h.sound.lt_of_getLast? hl) (fun e => ?_)
      rw [e] at hzero
      omega
    · exact absurd hempty (hk.1 hn hnil)
  | deletePage q =>
    cases hs
    rcases s.deletePage_cases q with ⟨-, hs⟩ | ⟨g, hq, ⟨-, hs⟩ | ⟨-, hs⟩⟩
    · rw [hs]
      exact ⟨hp, rfl, rfl⟩
    · rw [hs]
      exact ⟨hp, rfl, rfl⟩
    · have hgf : f ≠ g := fun e => hspares (h.sound.pageTable_inj (e ▸ hq) hp)
      rw [hs]
      simp only [Function.update_of_ne hgf, Function.update_of_ne (Ne.symm hspares)]
      exact ⟨hp, trivial, trivial⟩
  | unpinPage | flushPage | writePage => exact absurd hspares id

/-- A full pool refuses: where the call spares the pinned it is a `NewPage`,
since such a fetch has a victim. -/
theorem TracksUnpinned.fullRefuses (h : s.TracksUnpinned) {A : Allocator} {call : PoolCall β}
    (hk : s.SparesPinned A call) : s.FullRefuses A call := by
  intro hnil hempty hneeds s' a hs
  cases call with
  | newPage =>
    cases hs
    rcases newPage_cases h.sound hk.1 with ⟨-, -, hs⟩ | ⟨g, hl, -, -⟩
    · rw [hs]
      exact ⟨rfl, rfl, rfl, rfl⟩
    · rw [hnil] at hl
      cases hl
  | fetchPage q garbage => exact absurd hempty (hk.1 hneeds hnil)
  | unpinPage | flushPage | deletePage | writePage => exact absurd hneeds id

theorem tracksUnpinned_init (n : ℕ) : (init n : BufferPool β).TracksUnpinned :=
  ⟨sound_init n, nofun⟩

/-- **Pinned pages stay and full pools refuse** in every run of regular calls
that reuse no frame the replacer still tracks. -/
theorem pinned_of_sparesPinned (A : Allocator) (n : ℕ) (s : BufferPool β)
    (hs : Machine.Reaches (step A) (SparesPinned A) (init n) s) (call : PoolCall β)
    (hcall : s.SparesPinned A call) : s.PinnedStays A call ∧ s.FullRefuses A call :=
  have h := hs.invariant (tracksUnpinned_init n) (fun _ _ _ _ h hk hstep => h.step hk hstep)
  ⟨h.pinnedStays hcall, h.fullRefuses hcall⟩

/-- A full pool of one frame asked for another page. -/
theorem pinned_of_sparesPinned_full :
    ∃ s : BufferPool ℕ, s.pageTable 0 = some 0 ∧ (s.newPage Allocator.bump).2 = none ∧
      s.PinnedStays Allocator.bump .newPage ∧ s.FullRefuses Allocator.bump .newPage := by
  let s₁ : BufferPool ℕ := ((init 1).newPage Allocator.bump).1
  have hcall : (init 1 : BufferPool ℕ).SparesPinned Allocator.bump .newPage :=
    ⟨⟨fun _ => rfl, nofun⟩, fun _ f _ => List.not_mem_nil⟩
  have hcall₁ : s₁.SparesPinned Allocator.bump .newPage :=
    ⟨⟨fun h => absurd rfl h, fun _ => rfl⟩, fun _ f _ => List.not_mem_nil⟩
  have h₁ : Machine.Reaches (step Allocator.bump) (SparesPinned Allocator.bump) (init 1) s₁ :=
    .next .init hcall rfl
  exact ⟨s₁, by decide, by decide, pinned_of_sparesPinned Allocator.bump 1 s₁ h₁ .newPage hcall₁⟩

/-- In a pool of one frame whose page is pinned, a fetch of another page
takes that frame when the uninitialised local variable holds its number. -/
theorem not_pinnedStays_of_fetchPage :
    ¬ ∀ (n : ℕ) (s : BufferPool ℕ), 1 ≤ n →
      Machine.Reaches (step Allocator.bump) (fun _ _ => True) (init n) s →
      ∀ call, s.PinnedStays Allocator.bump call ∧ s.FullRefuses Allocator.bump call := by
  intro hall
  let s₁ : BufferPool ℕ := ((init 1).newPage Allocator.bump).1
  have h₁ : Machine.Reaches (step Allocator.bump) (fun _ _ => True) (init 1) s₁ :=
    .next (i := .newPage) .init trivial rfl
  have hfetch : ∃ s₂, s₁.step Allocator.bump (.fetchPage 7 0) = some (s₂, .frame 0) ∧
      s₂.pageTable 0 = none := ⟨_, rfl, by decide⟩
  obtain ⟨s₂, hs₂, hgone⟩ := hfetch
  have hstay := (hall 1 s₁ le_rfl h₁ (.fetchPage 7 0)).1 0 0 (by decide) (by decide)
    (show (7 : ℤ) ≠ 0 by decide) s₂ _ hs₂
  rw [hgone] at hstay
  cases hstay.1

end BufferPool

end MiniSql
