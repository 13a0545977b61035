import MiniSql.BufferPoolFrames

/-!
# The pool reads its own writes

A client of the buffer pool writes into pages that it holds pinned, and
unpins a page that it has written to with the dirty flag set. In return a
fetch of a page should give its last contents, whatever was evicted in
between (`Tracked.ReadsBack`).

To say what the last contents are, `Tracked` runs the pool next to a
record of them: `last` has the bytes last written to each page, or the zeroes
of `NewPage`, until the page is deleted, and `unsaved` the pages with a write
that no `UnpinPage` has announced yet.

The pool keeps its promise in every run of regular calls in which the frame
that a `FetchPage` evicts is not pinned (`readsBack_of_evictsUnpinned`).
It is enough that the pool is sound: a frame that is not dirty then has its
contents on disk, unless a client still holds the page.
-/

namespace MiniSql

/-- A regular call that evicts no pinned frame. -/
def BufferPool.EvictsUnpinned {β : Type} [Zero β] (A : Allocator) (s : BufferPool β) :
    PoolCall β → Prop
  | .newPage => s.Regular A .newPage
  | .fetchPage p garbage => s.Regular A (.fetchPage p garbage) ∧
      (s.pageTable p = none → s.freeList = [] →
        ∀ f, s.replacer.lruList.getLast? = some f → (s.pages f).pinCount = 0)
  | _ => True

/-- A pool with a record of what its clients wrote. -/
structure Tracked (β : Type) where
  /-- The pool. -/
  pool : BufferPool β
  /-- The contents each page is expected to have. -/
  last : PageId → Option β
  /-- The pages with a write that has not been announced. -/
  unsaved : PageId → Bool

namespace Tracked

open BufferPool

variable {β : Type} [Zero β] {t : Tracked β}

/-- An empty pool, in which nothing has been written. -/
def init (n : ℕ) : Tracked β := ⟨.init n, fun _ => none, fun _ => false⟩

/-- What a call does to the contents the pages are expected to have. -/
def lastAfter (last : PageId → Option β) : PoolCall β → PoolAnswer → PageId → Option β
  | .newPage, .page (some (q, _)) => Function.update last q (some 0)
  | .writePage p data, _ => Function.update last p (some data)
  | .deletePage p, .bool true => Function.update last p none
  | _, _ => last

/-- What a call does to the set of pages with unannounced writes. -/
def unsavedAfter (unsaved : PageId → Bool) : PoolCall β → PoolAnswer → PageId → Bool
  | .newPage, .page (some (q, _)) => Function.update unsaved q false
  | .writePage p _, _ => Function.update unsaved p true
  | .unpinPage p true, .bool true => Function.update unsaved p false
  | .deletePage p, .bool true => Function.update unsaved p false
  | _, _ => unsaved

/-- One call, with the record kept. -/
def step (A : Allocator) (t : Tracked β) (call : PoolCall β) :
    Option (Tracked β × PoolAnswer) :=
  (t.pool.step A call).map
    (fun r => (⟨r.1, lastAfter t.last call r.2, unsavedAfter t.unsaved call r.2⟩, r.2))

/-- The rules for clients: write only to a pinned page, and announce the
writes to a page before its last pin goes. -/
def Protocol (t : Tracked β) : PoolCall β → Prop
  | .writePage p _ => ∃ f, t.pool.pageTable p = some f ∧ 0 < (t.pool.pages f).pinCount
  | .unpinPage p false => t.unsaved p = true →
      ∃ f, t.pool.pageTable p = some f ∧ 1 < (t.pool.pages f).pinCount
  | _ => True

/-- No contents are lost, and a fetch gives a frame with the page and its
last contents. -/
def ReadsBack (A : Allocator) (t : Tracked β) (p : PageId) (garbage : FrameId) : Prop :=
  (∀ d, t.last p = some d → t.pool.contentOf p = d) ∧
    ∀ t' f, t.step A (.fetchPage p garbage) = some (t', .frame f) →
      (t'.pool.pages f).pageId = p ∧ ∀ d, t.last p = some d → (t'.pool.pages f).data = d

/-- The invariant: the pool is sound, every page has its last contents, an
unannounced write is to a pinned page, and what is neither dirty nor
unannounced is on disk. -/
structure Faithful (t : Tracked β) : Prop where
  sound : t.pool.Sound
  content : ∀ p d, t.last p = some d → t.pool.contentOf p = d
  pinned : ∀ p, t.unsaved p = true →
    ∃ f, t.pool.pageTable p = some f ∧ 0 < (t.pool.pages f).pinCount
  saved : ∀ p f, t.pool.pageTable p = some f → t.unsaved p = false →
    (t.pool.pages f).isDirty = false → t.pool.disk.content p = (t.pool.pages f).data

theorem faithful_init (n : ℕ) : (init n : Tracked β).Faithful :=
  ⟨sound_init n, nofun, nofun, nofun⟩

omit [Zero β] in
/-- Two pages of a sound pool have different frames. -/
theorem frame_ne {s : BufferPool β} (h : s.Sound) {p q : PageId} {f g : FrameId}
    (hp : s.pageTable p = some f) (hq : s.pageTable q = some g) (hqp : q ≠ p) : g ≠ f :=
  fun e => hqp (h.pageTable_inj (e ▸ hq) hp)

omit [Zero β] in
/-- Changing the frame of one page without unpinning it keeps every other
page as it is. -/
theorem Faithful.retouch (h : t.Faithful) {p : PageId} {f : FrameId}
    (hp : t.pool.pageTable p = some f) {page : Page β} {content : PageId → β}
    {r : LruReplacer} {last : PageId → Option β} {unsaved : PageId → Bool}
    (hsound : (⟨t.pool.poolSize, Function.update t.pool.pages f page,
      ⟨content, t.pool.disk.allocated⟩, t.pool.pageTable, r, t.pool.freeList⟩ :
      BufferPool β).Sound)
    (hdisk : ∀ q, q ≠ p → content q = t.pool.disk.content q)
    (hlast : ∀ q, q ≠ p → last q = t.last q)
    (hunsaved : ∀ q, q ≠ p → unsaved q = t.unsaved q)
    (hdata : ∀ d, last p = some d → page.data = d)
    (hpin : unsaved p = true → 0 < page.pinCount)
    (hclean : unsaved p = false → page.isDirty = false → content p = page.data) :
    (⟨⟨t.pool.poolSize, Function.update t.pool.pages f page,
      ⟨content, t.pool.disk.allocated⟩, t.pool.pageTable, r, t.pool.freeList⟩, last, unsaved⟩ :
      Tracked β).Faithful := by
  refine ⟨hsound, ?_, ?_, ?_⟩
  · intro q d hq
    by_cases hqp : q = p
    · subst hqp
      simp only [contentOf, hp, Function.update_self]
      exact hdata d hq
    · have hold := h.content q d (hlast q hqp ▸ hq)
      unfold contentOf at hold ⊢
      split at hold
      · rename_i hn
        simp only [hn, hdisk q hqp, hold]
      · rename_i g hg
        simp only [hg, Function.update_of_ne (frame_ne h.sound hp hg hqp), hold]
  · intro q hq
    by_cases hqp : q = p
    · subst hqp
      exact ⟨f, hp, by simpa only [Function.update_self] using hpin hq⟩
    · obtain ⟨g, hg, hpos⟩ := h.pinned q (hunsaved q hqp ▸ hq)
      refine ⟨g, hg, ?_⟩
      simp only [Function.update_of_ne (frame_ne h.sound hp hg hqp), hpos]
  · intro q g hg hq hd
    by_cases hqp : q = p
    · subst hqp
      have hgf : f = g := Option.some.inj (hp.symm.trans hg)
      subst hgf
      simp only [Function.update_self] at hd ⊢
      exact hclean hq hd
    · have hne := frame_ne h.sound hp hg hqp
      simp only [Function.update_of_ne hne] at hd ⊢
      rw [hdisk q hqp]
      exact h.saved q g hg (hunsaved q hqp ▸ hq) hd

omit [Zero β] in
/-- A page gets a frame that was free, or that was evicted after its contents
had been saved: every other page keeps its contents. -/
theorem Faithful.claim (h : t.Faithful) {p : PageId} {f : FrameId} {page : Page β}
    {content : PageId → β} {allocated : Finset PageId} {r : LruReplacer}
    {last : PageId → Option β} {unsaved : PageId → Bool}
    (hf : f < t.pool.poolSize) (hnone : t.pool.pageTable p = none)
    (hsound : (⟨t.pool.poolSize, Function.update t.pool.pages f page, ⟨content, allocated⟩,
      Function.update (Function.update t.pool.pageTable (t.pool.pages f).pageId none) p (some f),
      r, t.pool.freeList.erase f⟩ : BufferPool β).Sound)
    (hunpinned : (t.pool.pages f).pinCount = 0)
    (hevicted : ∀ d, t.pool.pageTable (t.pool.pages f).pageId = some f →
      (t.pool.pages f).data = d → content (t.pool.pages f).pageId = d)
    (hdisk : ∀ q, t.pool.pageTable q ≠ some f → content q = t.pool.disk.content q)
    (hlast : ∀ q, q ≠ p → last q = t.last q)
    (hunsaved : ∀ q, q ≠ p → unsaved q = t.unsaved q) (hunsavedp : unsaved p = false)
    (hdata : ∀ d, last p = some d → page.data = d)
    (hclean : page.isDirty = false → content p = page.data) :
    (⟨⟨t.pool.poolSize, Function.update t.pool.pages f page, ⟨content, allocated⟩,
      Function.update (Function.update t.pool.pageTable (t.pool.pages f).pageId none) p (some f),
      r, t.pool.freeList.erase f⟩, last, unsaved⟩ : Tracked β).Faithful := by
  -- a page other than `p` and than the evicted one keeps its entry
  have hentry : ∀ q, q ≠ p → q ≠ (t.pool.pages f).pageId →
      Function.update (Function.update t.pool.pageTable (t.pool.pages f).pageId none) p
        (some f) q = t.pool.pageTable q := fun q hqp hqf => by
    rw [Function.update_of_ne hqp, Function.update_of_ne hqf]
  have hown : ∀ q g, q ≠ (t.pool.pages f).pageId → t.pool.pageTable q = some g → g ≠ f :=
    fun q g hqf hq e => hqf ((h.sound.resident q g hq).2.1.symm.trans (e ▸ rfl))
  refine ⟨hsound, ?_, ?_, ?_⟩
  · intro q d hq
    by_cases hqp : q = p
    · subst hqp
      simp only [contentOf, Function.update_self]
      exact hdata d hq
    · have hold := h.content q d (hlast q hqp ▸ hq)
      by_cases hqf : q = (t.pool.pages f).pageId
      · have hgone : Function.update (Function.update t.pool.pageTable
            (t.pool.pages f).pageId none) p (some f) q = none := by
          rw [Function.update_of_ne hqp, hqf, Function.update_self]
        simp only [contentOf, hgone]
        rcases h.sound.pageTable_pageId hf with ⟨-, hn⟩ | ⟨-, hsome⟩
        · simp only [contentOf, hqf, hn] at hold
          rw [hqf, hdisk _ (by rw [hn]; exact nofun), hold]
        · simp only [contentOf, hqf, hsome] at hold
          rw [hqf]
          exact hevicted d hsome hold
      · unfold contentOf at hold ⊢
        simp only [hentry q hqp hqf]
        split at hold
        · rename_i hn
          simp only [hdisk q (by rw [hn]; exact nofun), hold]
        · rename_i g hg
          simp only [Function.update_of_ne (hown q g hqf hg), hold]
  · intro q hq
    have hq : unsaved q = true := hq
    have hqp : q ≠ p := fun e => by
      rw [e, hunsavedp] at hq
      cases hq
    obtain ⟨g, hg, hpos⟩ := h.pinned q (hunsaved q hqp ▸ hq)
    have hqf : q ≠ (t.pool.pages f).pageId := fun e => by
      rcases h.sound.pageTable_pageId hf with ⟨-, hn⟩ | ⟨-, hsome⟩
      · rw [e, hn] at hg
        cases hg
      · rw [e, hsome] at hg
        cases hg
        omega
    refine ⟨g, (hentry q hqp hqf).trans hg, ?_⟩
    simp only [Function.update_of_ne (hown q g hqf hg), hpos]
  · intro q g hg hq hd
    by_cases hqp : q = p
    · subst hqp
      have hgf : f = g := by
        have hg : Function.update (Function.update t.pool.pageTable
          (t.pool.pages f).pageId none) q (some f) q = some g := hg
        rw [Function.update_self] at hg
        exact Option.some.inj hg
      subst hgf
      simp only [Function.update_self] at hd ⊢
      exact hclean hd
    · by_cases hqf : q = (t.pool.pages f).pageId
      · have hg : Function.update (Function.update t.pool.pageTable
            (t.pool.pages f).pageId none) p (some f) q = some g := hg
        rw [Function.update_of_ne hqp, hqf, Function.update_self] at hg
        cases hg
      · have hg : t.pool.pageTable q = some g := (hentry q hqp hqf).symm.trans hg
        have hgf := hown q g hqf hg
        simp only [Function.update_of_ne hgf] at hd ⊢
        rw [hdisk q (by rw [hg]; exact fun e => hgf (Option.some.inj e))]
        exact h.saved q g hg (hunsaved q hqp ▸ hq) hd

omit [Zero β] in
/-- A fetch that fills a frame without pins keeps every page's contents. -/
theorem Faithful.fetched (h : t.Faithful) {p : PageId} {f : FrameId} {r : LruReplacer}
    (hf : f < t.pool.poolSize) (hp : 0 ≤ p) (hnone : t.pool.pageTable p = none)
    (hunpinned : (t.pool.pages f).pinCount = 0) (hr : r.WellFormed)
    (hmax : r.maxSize = t.pool.poolSize) :
    (⟨t.pool.fetched f p r, t.last, t.unsaved⟩ : Tracked β).Faithful ∧
      ∀ d, t.last p = some d → ((t.pool.fetched f p r).pages f).data = d := by
  have hclean : ∀ q, t.pool.pageTable q = none → t.unsaved q = false := fun q hq => by
    rcases hu : t.unsaved q with _ | _
    · rfl
    · obtain ⟨g, hg, -⟩ := h.pinned q hu
      rw [hq] at hg
      cases hg
  have hsave : t.pool.pageTable (t.pool.pages f).pageId = some f →
      t.unsaved (t.pool.pages f).pageId = false := fun hsome => by
    rcases hu : t.unsaved (t.pool.pages f).pageId with _ | _
    · rfl
    · obtain ⟨g, hg, hpos⟩ := h.pinned _ hu
      rw [hsome] at hg
      cases hg
      omega
  -- the disk after the old contents have been written back
  have hkeep : ∀ q, t.pool.pageTable q ≠ some f →
      (t.pool.fetched f p r).disk.content q = t.pool.disk.content q := by
    intro q hq
    show (ite _ _ _ : PageId → β) q = _
    split
    · rename_i hcond
      exact Function.update_of_ne (fun e => hq (by rw [e, hcond.2])) _ _
    · rfl
  have hdata : ∀ d, t.last p = some d → ((t.pool.fetched f p r).pages f).data = d := by
    intro d hd
    have hold := h.content p d hd
    simp only [contentOf, hnone] at hold
    have hfetch : ((t.pool.fetched f p r).pages f).data
        = (t.pool.fetched f p r).disk.content p := by
      simp only [BufferPool.fetched, Function.update_self]
    rw [hfetch, hkeep p (by rw [hnone]; exact (Option.some_ne_none f).symm), hold]
  refine ⟨h.claim hf hnone (h.sound.fetched hf hp hnone hr hmax) hunpinned ?_ hkeep
    (fun _ _ => rfl) (fun _ _ => rfl) (hclean p hnone) ?_ (fun _ => rfl), hdata⟩
  · intro d hsome hd
    by_cases hdirty : (t.pool.pages f).isDirty = true
    · rw [if_pos ⟨hdirty, hsome⟩, Function.update_self, hd]
    · rw [if_neg (fun hc => hdirty hc.1),
        h.saved _ f hsome (hsave hsome) (Bool.eq_false_iff.mpr hdirty), hd]
  · intro d hd
    have hfetch := hdata d hd
    simp only [BufferPool.fetched, Function.update_self] at hfetch
    exact hfetch

omit [Zero β] in
/-- A page loses its frame to the free list. -/
theorem Faithful.drop (h : t.Faithful) {p : PageId} {f : FrameId}
    (hp : t.pool.pageTable p = some f) {page : Page β} {allocated : Finset PageId}
    {fl : List FrameId}
    (hsound : (⟨t.pool.poolSize, Function.update t.pool.pages f page,
      ⟨t.pool.disk.content, allocated⟩, Function.update t.pool.pageTable p none,
      t.pool.replacer, fl⟩ : BufferPool β).Sound) :
    (⟨⟨t.pool.poolSize, Function.update t.pool.pages f page,
      ⟨t.pool.disk.content, allocated⟩, Function.update t.pool.pageTable p none,
      t.pool.replacer, fl⟩, Function.update t.last p none,
      Function.update t.unsaved p false⟩ : Tracked β).Faithful := by
  refine ⟨hsound, ?_, ?_, ?_⟩
  · intro q d hq
    have hq : Function.update t.last p none q = some d := hq
    by_cases hqp : q = p
    · rw [hqp, Function.update_self] at hq
      cases hq
    · rw [Function.update_of_ne hqp] at hq
      have hold := h.content q d hq
      unfold contentOf at hold ⊢
      simp only [Function.update_of_ne hqp]
      split at hold
      · simp only [hold]
      · rename_i g hg
        simp only [Function.update_of_ne (frame_ne h.sound hp hg hqp), hold]
  · intro q hq
    have hq : Function.update t.unsaved p false q = true := hq
    by_cases hqp : q = p
    · rw [hqp, Function.update_self] at hq
      cases hq
    · rw [Function.update_of_ne hqp] at hq
      obtain ⟨g, hg, hpos⟩ := h.pinned q hq
      refine ⟨g, (Function.update_of_ne hqp _ _).trans hg, ?_⟩
      simp only [Function.update_of_ne (frame_ne h.sound hp hg hqp), hpos]
  · intro q g hg hq hd
    have hg : Function.update t.pool.pageTable p none q = some g := hg
    have hq : Function.update t.unsaved p false q = false := hq
    by_cases hqp : q = p
    · rw [hqp, Function.update_self] at hg
      cases hg
    · rw [Function.update_of_ne hqp] at hg hq
      have hne := frame_ne h.sound hp hg hqp
      simp only [Function.update_of_ne hne] at hd ⊢
      exact h.saved q g hg hq hd

omit [Zero β] in
/-- A page that has no frame is forgotten. -/
theorem Faithful.forget (h : t.Faithful) {p : PageId} (hp : t.pool.pageTable p = none)
    {allocated : Finset PageId} :
    (⟨{ t.pool with disk := { t.pool.disk with allocated := allocated } },
      Function.update t.last p none, Function.update t.unsaved p false⟩ :
      Tracked β).Faithful := by
  refine ⟨⟨h.sound.replacer, h.sound.maxSize, h.sound.freeNodup, h.sound.free,
    h.sound.resident, h.sound.owned⟩, ?_, ?_, ?_⟩
  · intro q d hq
    have hq : Function.update t.last p none q = some d := hq
    by_cases hqp : q = p
    · rw [hqp, Function.update_self] at hq
      cases hq
    · rw [Function.update_of_ne hqp] at hq
      exact h.content q d hq
  · intro q hq
    have hq : Function.update t.unsaved p false q = true := hq
    by_cases hqp : q = p
    · rw [hqp, Function.update_self] at hq
      cases hq
    · rw [Function.update_of_ne hqp] at hq
      exact h.pinned q hq
  · intro q g hg hq hd
    have hqp : q ≠ p := fun e => by
      have hg : t.pool.pageTable q = some g := hg
      rw [e, hp] at hg
      cases hg
    have hq : Function.update t.unsaved p false q = false := hq
    rw [Function.update_of_ne hqp] at hq
    exact h.saved q g hg hq hd

omit [Zero β] in
/-- The pages a client has announced nothing about do not depend on which ids
are allocated. -/
theorem Faithful.reallocate (h : t.Faithful) (allocated : Finset PageId) :
    (⟨{ t.pool with disk := { t.pool.disk with allocated := allocated } }, t.last, t.unsaved⟩ :
      Tracked β).Faithful :=
  ⟨⟨h.sound.replacer, h.sound.maxSize, h.sound.freeNodup, h.sound.free,
    h.sound.resident, h.sound.owned⟩, h.content, h.pinned, h.saved⟩

/-- A call within the rules that evicts no pinned frame keeps the record
faithful. -/
theorem Faithful.step (h : t.Faithful) {A : Allocator} {call : PoolCall β}
    (hprot : t.Protocol call) (hk : t.pool.EvictsUnpinned A call) {t' : Tracked β}
    {a : PoolAnswer} (hs : t.step A call = some (t', a)) : t'.Faithful := by
  obtain ⟨⟨s', a'⟩, hpool, hrec⟩ := Option.map_eq_some_iff.mp hs
  cases hrec
  cases call with
  | newPage =>
    cases hpool
    have hsound := h.sound.newPage (A := A) hk
    rcases newPage_cases h.sound hk with ⟨-, -, hs'⟩ | ⟨f, hl, hnone, hs'⟩
    · rw [hs']
      exact h
    · obtain ⟨hlt, hpin, hid⟩ := h.sound.free f (List.mem_of_getLast? hl)
      rw [hs'] at hsound ⊢
      refine h.claim hlt hnone hsound hpin ?_ (fun _ _ => rfl)
        (fun q hq => Function.update_of_ne hq _ _) (fun q hq => Function.update_of_ne hq _ _)
        (Function.update_self ..) ?_ nofun
      · intro d hsome
        rw [hid, h.sound.pageTable_invalid] at hsome
        cases hsome
      · intro d hd
        have hd : Function.update t.last (A.next t.pool.disk.allocated) (some 0)
          (A.next t.pool.disk.allocated) = some d := hd
        rw [Function.update_self] at hd
        exact Option.some.inj hd
  | fetchPage p garbage =>
    obtain ⟨⟨s'', f⟩, hf, hr⟩ := Option.map_eq_some_iff.mp hpool
    cases hr
    rcases fetchPage_cases h.sound hf with ⟨hp, rfl⟩ | ⟨hn, hp, hl, rfl⟩ |
      ⟨hn, hp, hnil, hl, hs'⟩ | ⟨hn, hnil, hempty⟩
    · refine h.retouch hp (h.sound.pinFrame hp) (fun _ _ => rfl) (fun _ _ => rfl)
        (fun _ _ => rfl) ?_ ?_ (fun hu hd => h.saved p f hp hu hd)
      · intro d hd
        have hold := h.content p d hd
        simp only [contentOf, hp] at hold
        exact hold
      · exact fun _ => Int.lt_add_one_of_le (h.sound.resident p f hp).2.2.2.2
    · obtain ⟨hlt, hpin, -⟩ := h.sound.free f (List.mem_of_getLast? hl)
      exact (h.fetched hlt hp hn hpin h.sound.replacer h.sound.maxSize).1
    · have hpin := hk.2 hn hnil f hl
      rw [hs' hpin]
      exact (h.fetched (h.sound.lt_of_getLast? hl) hp hn hpin (h.sound.replacer.pin f)
        ((LruReplacer.maxSize_pin _ _).trans h.sound.maxSize)).1
    · exact absurd hempty (hk.1 hn hnil)
  | unpinPage p d =>
    cases hpool
    have hsound := h.sound.unpinPage p d
    rcases unpinPage_cases h.sound p d with ⟨-, hs'⟩ | ⟨f, hp, hs'⟩
    · rw [hs']
      cases d <;> exact h
    · have hcontent : ∀ c, t.last p = some c → (t.pool.pages f).data = c := by
        intro c hc
        have hold := h.content p c hc
        simp only [contentOf, hp] at hold
        exact hold
      rw [hs'] at hsound ⊢
      cases d with
      | false =>
        refine h.retouch hp hsound (fun _ _ => rfl) (fun _ _ => rfl) (fun _ _ => rfl) hcontent
          ?_ (fun hu hd => h.saved p f hp hu hd)
        intro hu
        obtain ⟨g, hg, hpos⟩ := hprot hu
        have hgf : f = g := Option.some.inj (hp.symm.trans hg)
        subst hgf
        show 0 < lessPin _
        unfold lessPin
        rw [if_pos (by omega)]
        omega
      | true =>
        refine h.retouch hp hsound (fun q hq => Function.update_of_ne hq _ _) (fun _ _ => rfl)
          (fun q hq => Function.update_of_ne hq _ _) hcontent ?_ ?_
        · intro hu
          have hu : Function.update t.unsaved p false p = true := hu
          rw [Function.update_self] at hu
          cases hu
        · exact fun _ _ => Function.update_self ..
  | flushPage p =>
    cases hpool
    have hsound := h.sound.flushPage p
    rcases t.pool.flushPage_cases p with ⟨-, hs'⟩ | ⟨f, hp, hs'⟩
    · rw [hs']
      exact h
    · rw [hs'] at hsound ⊢
      refine h.retouch hp hsound (fun q hq => Function.update_of_ne hq _ _) (fun _ _ => rfl)
        (fun _ _ => rfl) ?_ ?_ (fun _ _ => Function.update_self ..)
      · intro d hd
        have hold := h.content p d hd
        simp only [contentOf, hp] at hold
        exact hold
      · intro hu
        obtain ⟨g, hg, hpos⟩ := h.pinned p hu
        have hgf : f = g := Option.some.inj (hp.symm.trans hg)
        exact hgf ▸ hpos
  | deletePage p =>
    cases hpool
    have hsound := h.sound.deletePage p
    rcases t.pool.deletePage_cases p with ⟨hp, hs'⟩ | ⟨f, hp, ⟨-, hs'⟩ | ⟨-, hs'⟩⟩
    · rw [hs']
      exact h.forget hp
    · rw [hs']
      exact h.reallocate _
    · rw [hs'] at hsound ⊢
      exact h.drop hp hsound
  | writePage p data =>
    cases hpool
    obtain ⟨f, hf, hpos⟩ := hprot
    have hsound := h.sound.writePage p data
    rcases t.pool.writePage_cases p data with ⟨hn, -⟩ | ⟨g, hp, hs'⟩
    · rw [hf] at hn
      cases hn
    · have hgf : f = g := Option.some.inj (hf.symm.trans hp)
      subst hgf
      rw [hs'] at hsound ⊢
      refine h.retouch hp hsound (fun _ _ => rfl) (fun q hq => Function.update_of_ne hq _ _)
        (fun q hq => Function.update_of_ne hq _ _) ?_ (fun _ => hpos) ?_
      · intro d hd
        have hd : Function.update t.last p (some data) p = some d := hd
        rw [Function.update_self] at hd
        exact Option.some.inj hd
      · intro hu
        have hu : Function.update t.unsaved p true p = false := hu
        rw [Function.update_self] at hu
        cases hu

/-- In a faithful pool a fetch that evicts no pinned frame gives the page
with its last contents. -/
theorem Faithful.readsBack (h : t.Faithful) {A : Allocator} {p : PageId} {garbage : FrameId}
    (hk : t.pool.EvictsUnpinned A (.fetchPage p garbage)) : t.ReadsBack A p garbage := by
  refine ⟨h.content p, fun t' f₀ hs => ?_⟩
  obtain ⟨⟨s', a'⟩, hpool, hrec⟩ := Option.map_eq_some_iff.mp hs
  cases hrec
  obtain ⟨⟨s'', f⟩, hf, hr⟩ := Option.map_eq_some_iff.mp hpool
  cases hr
  have hfilled : ∀ r : LruReplacer, ((t.pool.fetched f p r).pages f).pageId = p := by
    intro r
    simp only [BufferPool.fetched, Function.update_self]
  rcases fetchPage_cases h.sound hf with ⟨hp, rfl⟩ | ⟨hn, hp, hl, rfl⟩ |
    ⟨hn, hp, hnil, hl, hs'⟩ | ⟨hn, hnil, hempty⟩
  · simp only [Function.update_self]
    refine ⟨(h.sound.resident p f hp).2.1, fun d hd => ?_⟩
    have hold := h.content p d hd
    simp only [contentOf, hp] at hold
    exact hold
  · obtain ⟨hlt, hpin, -⟩ := h.sound.free f (List.mem_of_getLast? hl)
    exact ⟨hfilled _, (h.fetched hlt hp hn hpin h.sound.replacer h.sound.maxSize).2⟩
  · have hpin := hk.2 hn hnil f hl
    rw [hs' hpin]
    exact ⟨hfilled _, (h.fetched (h.sound.lt_of_getLast? hl) hp hn hpin
      (h.sound.replacer.pin f) ((LruReplacer.maxSize_pin _ _).trans h.sound.maxSize)).2⟩
  · exact absurd hempty (hk.1 hn hnil)

/-- **The pool reads its own writes** in every run within the rules whose
calls are regular and evict no pinned frame. -/
theorem readsBack_of_evictsUnpinned (A : Allocator) (n : ℕ) (t : Tracked β)
    (ht : Machine.Reaches (step A)
      (fun t call => t.Protocol call ∧ t.pool.EvictsUnpinned A call) (init n) t)
    (p : PageId) (garbage : FrameId)
    (hp : t.pool.EvictsUnpinned A (.fetchPage p garbage)) : t.ReadsBack A p garbage :=
  (ht.invariant (faithful_init n) (fun _ _ _ _ h hk hs => h.step hk.1 hk.2 hs)).readsBack hp

/-- A page of a pool of one frame, written, unpinned, evicted for another one
and read back. -/
theorem readsBack_of_evictsUnpinned_evicted :
    ∃ t : Tracked ℕ, t.last 0 = some 5 ∧ t.pool.pageTable 0 = none ∧
      t.ReadsBack Allocator.bump 0 0 := by
  let A := Allocator.bump
  let t₀ : Tracked ℕ := init 1
  let t₁ : Tracked ℕ := ⟨(t₀.pool.newPage A).1, Function.update t₀.last 0 (some 0),
    Function.update t₀.unsaved 0 false⟩
  let t₂ : Tracked ℕ := ⟨t₁.pool.writePage 0 5, Function.update t₁.last 0 (some 5),
    Function.update t₁.unsaved 0 true⟩
  let t₃ : Tracked ℕ := ⟨(t₂.pool.unpinPage 0 true).1, t₂.last,
    Function.update t₂.unsaved 0 false⟩
  let t₄ : Tracked ℕ := ⟨({ t₃.pool with replacer := t₃.pool.replacer.victim.1 }.writeBack
    0).install 0 9, t₃.last, t₃.unsaved⟩
  let t₅ : Tracked ℕ := ⟨(t₄.pool.unpinPage 9 false).1, t₄.last, t₄.unsaved⟩
  let Within := Machine.Reaches (step A)
    (fun t call => t.Protocol call ∧ t.pool.EvictsUnpinned A call) t₀
  have h₁ : Within t₁ := .next (i := .newPage) .init ⟨trivial, fun _ => rfl, nofun⟩ rfl
  have h₂ : Within t₂ := h₁.next (i := .writePage 0 5) ⟨⟨0, by decide, by decide⟩, trivial⟩ rfl
  have h₃ : Within t₃ := h₂.next (i := .unpinPage 0 true) ⟨trivial, trivial⟩ rfl
  have hfetch : t₃.pool.EvictsUnpinned A (.fetchPage 9 0) := by
    refine ⟨fun _ _ => by decide, fun _ _ f hf => ?_⟩
    have hlru : t₃.pool.replacer.lruList = [0] := by decide
    rw [hlru] at hf
    cases hf
    decide
  have h₄ : Within t₄ := h₃.next (i := .fetchPage 9 0) ⟨trivial, hfetch⟩ rfl
  have h₅ : Within t₅ := h₄.next (i := .unpinPage 9 false) ⟨nofun, trivial⟩ rfl
  have hback : t₅.pool.EvictsUnpinned A (.fetchPage 0 0) := by
    refine ⟨fun _ _ => by decide, fun _ _ f hf => ?_⟩
    have hlru : t₅.pool.replacer.lruList = [0] := by decide
    rw [hlru] at hf
    cases hf
    decide
  exact ⟨t₅, by decide, by decide, readsBack_of_evictsUnpinned A 1 t₅ h₅ 0 0 hback⟩

/-- In a pool of one frame a `NewPage` that evicts leaves the old page in the
table: fetching it gives the new page. -/
theorem not_readsBack_of_newPage :
    ¬ ∀ (n : ℕ) (t : Tracked ℕ), 1 ≤ n →
      Machine.Reaches (step Allocator.bump) (fun t call => t.Protocol call) (init n) t →
      ∀ p garbage, t.ReadsBack Allocator.bump p garbage := by
  intro hall
  let A := Allocator.bump
  let t₀ : Tracked ℕ := init 1
  let t₁ : Tracked ℕ := ⟨(t₀.pool.newPage A).1, Function.update t₀.last 0 (some 0),
    Function.update t₀.unsaved 0 false⟩
  let t₂ : Tracked ℕ := ⟨(t₁.pool.unpinPage 0 false).1, t₁.last, t₁.unsaved⟩
  let t₃ : Tracked ℕ := ⟨(t₂.pool.newPage A).1, Function.update t₂.last 1 (some 0),
    Function.update t₂.unsaved 1 false⟩
  let Within := Machine.Reaches (step A) (fun t call => t.Protocol call) t₀
  have h₁ : Within t₁ := .next (i := .newPage) .init trivial rfl
  have h₂ : Within t₂ := h₁.next (i := .unpinPage 0 false) nofun rfl
  have h₃ : Within t₃ := h₂.next (i := .newPage) trivial rfl
  have hread := ((hall 1 t₃ le_rfl h₃ 0 0).2 _ 0 rfl).1
  exact absurd hread (by decide)

end Tracked

end MiniSql
