import MiniSql.BufferPool

/-!
# Sound pools

`BufferPool.Sound` ties the page table, the page ids of the frames and the
free list together: the table is injective, a frame is free or the frame of
exactly the page that it names, and the replacer is well-formed. It says
nothing about which frames the replacer tracks, and so it survives a
`DeletePage`, after which a frame is free and still tracked.

Two habits of the source break it, and `BufferPool.Regular` rules out the
calls that meet them: a `NewPage` that has to evict, and a `NewPage` that is
handed the id of a resident page. Every other call keeps a pool sound
(`Sound.step`), given that a `FetchPage` that has to evict finds a victim.
-/

namespace MiniSql

namespace BufferPool

variable {β : Type} {s : BufferPool β}

/-- The page table, the frames and the free list agree. -/
structure Sound (s : BufferPool β) : Prop where
  replacer : s.replacer.WellFormed
  maxSize : s.replacer.maxSize = s.poolSize
  freeNodup : s.freeList.Nodup
  free : ∀ f ∈ s.freeList, f < s.poolSize ∧ (s.pages f).pinCount = 0 ∧
    (s.pages f).pageId = invalidPageId
  resident : ∀ p f, s.pageTable p = some f →
    f < s.poolSize ∧ (s.pages f).pageId = p ∧ f ∉ s.freeList ∧ 0 ≤ p ∧ 0 ≤ (s.pages f).pinCount
  owned : ∀ f < s.poolSize, f ∉ s.freeList → s.pageTable (s.pages f).pageId = some f

/-- The calls that stay clear of the two habits: a `NewPage` finds a free
frame and a page id that is not resident, or nothing can be evicted at all,
and a `FetchPage` that has to evict finds a victim. -/
def Regular (A : Allocator) (s : BufferPool β) : PoolCall β → Prop
  | .newPage =>
    (s.freeList ≠ [] → s.pageTable (A.next s.disk.allocated) = none) ∧
      (s.freeList = [] → s.replacer.lruList = [])
  | .fetchPage p _ =>
    s.pageTable p = none → s.freeList = [] → s.replacer.lruList ≠ []
  | _ => True

namespace Sound

/-- Two pages never share a frame. -/
theorem pageTable_inj (h : s.Sound) {p q : PageId} {f : FrameId}
    (hp : s.pageTable p = some f) (hq : s.pageTable q = some f) : p = q :=
  (h.resident p f hp).2.1.symm.trans (h.resident q f hq).2.1

theorem pageTable_invalid (h : s.Sound) : s.pageTable invalidPageId = none := by
  rcases hp : s.pageTable invalidPageId with _ | f
  · rfl
  · exact absurd (h.resident _ f hp).2.2.2.1 (by decide)

/-- The table lists a frame under its own page id or not at all. -/
theorem pageTable_pageId (h : s.Sound) {f : FrameId} (hf : f < s.poolSize) :
    (f ∈ s.freeList ∧ s.pageTable (s.pages f).pageId = none) ∨
      (f ∉ s.freeList ∧ s.pageTable (s.pages f).pageId = some f) := by
  by_cases hfree : f ∈ s.freeList
  · exact .inl ⟨hfree, (h.free f hfree).2.2 ▸ h.pageTable_invalid⟩
  · exact .inr ⟨hfree, h.owned f hf hfree⟩

/-- **Claiming a frame.** A frame taken from its page, or from the free list,
and given to a page that is not resident leaves the pool sound. -/
theorem claim (h : s.Sound) {f : FrameId} {p : PageId} {page : Page β} {d : Disk β}
    {r : LruReplacer} (hf : f < s.poolSize) (hp : 0 ≤ p) (hnone : s.pageTable p = none)
    (hid : page.pageId = p) (hpin : 0 ≤ page.pinCount) (hr : r.WellFormed)
    (hmax : r.maxSize = s.poolSize) :
    (⟨s.poolSize, Function.update s.pages f page, d,
      Function.update (Function.update s.pageTable (s.pages f).pageId none) p (some f), r,
      s.freeList.erase f⟩ : BufferPool β).Sound where
  replacer := hr
  maxSize := hmax
  freeNodup := h.freeNodup.erase f
  free := by
    intro g hg
    obtain ⟨hne, hg⟩ := (h.freeNodup.mem_erase_iff).mp hg
    simp only [Function.update_of_ne hne]
    exact h.free g hg
  resident := by
    intro q g hq
    have hq : Function.update (Function.update s.pageTable (s.pages f).pageId none) p
      (some f) q = some g := hq
    by_cases hqp : q = p
    · rw [hqp, Function.update_self] at hq
      cases hq
      simp only [Function.update_self]
      exact ⟨hf, hid.trans hqp.symm, fun hm => (h.freeNodup.mem_erase_iff.mp hm).1 rfl,
        hqp ▸ hp, hpin⟩
    · rw [Function.update_of_ne hqp] at hq
      by_cases hqf : q = (s.pages f).pageId
      · rw [hqf, Function.update_self] at hq
        cases hq
      · rw [Function.update_of_ne hqf] at hq
        obtain ⟨hlt, hpid, hnf, hpos, hcnt⟩ := h.resident q g hq
        have hne : g ≠ f := fun e => hqf (by rw [← hpid, e])
        simp only [Function.update_of_ne hne]
        exact ⟨hlt, hpid, fun hm => hnf (List.mem_of_mem_erase hm), hpos, hcnt⟩
  owned := by
    intro g hg hnf
    by_cases hgf : g = f
    · subst hgf
      simp only [Function.update_self, hid]
    · simp only [Function.update_of_ne hgf]
      have hg' : g ∉ s.freeList := fun hm => hnf ((List.mem_erase_of_ne hgf).mpr hm)
      have hown := h.owned g hg hg'
      have hqp : (s.pages g).pageId ≠ p := fun e => by
        rw [e, hnone] at hown
        cases hown
      have hqf : (s.pages g).pageId ≠ (s.pages f).pageId := fun e => by
        rcases h.pageTable_pageId hf with ⟨-, hn⟩ | ⟨-, hsome⟩
        · rw [e, hn] at hown
          cases hown
        · rw [e, hsome] at hown
          exact hgf (Option.some.inj hown).symm
      rw [Function.update_of_ne hqp, Function.update_of_ne hqf, hown]

/-- Book-keeping on one frame that leaves its page id alone keeps a pool
sound. -/
theorem retouch (h : s.Sound) {f : FrameId} {page : Page β} {d : Disk β} {r : LruReplacer}
    (hnf : f ∉ s.freeList) (hid : page.pageId = (s.pages f).pageId)
    (hpin : f < s.poolSize → 0 ≤ page.pinCount)
    (hr : r.WellFormed) (hmax : r.maxSize = s.poolSize) :
    (⟨s.poolSize, Function.update s.pages f page, d, s.pageTable, r, s.freeList⟩ :
      BufferPool β).Sound := by
  have hids : ∀ g, (Function.update s.pages f page g).pageId = (s.pages g).pageId := by
    intro g
    by_cases hgf : g = f
    · rw [hgf, Function.update_self, hid]
    · rw [Function.update_of_ne hgf]
  refine ⟨hr, hmax, h.freeNodup, ?_, ?_, ?_⟩
  · intro g hg
    have hne : g ≠ f := fun e => hnf (e ▸ hg)
    simp only [Function.update_of_ne hne]
    exact h.free g hg
  · intro q g hq
    obtain ⟨hlt, hpid, hgnf, hpos, hcnt⟩ := h.resident q g hq
    refine ⟨hlt, (hids g).trans hpid, hgnf, hpos, ?_⟩
    by_cases hgf : g = f
    · subst hgf
      simp only [Function.update_self]
      exact hpin hlt
    · simp only [Function.update_of_ne hgf]
      exact hcnt
  · intro g hg hgnf
    have hown := h.owned g hg hgnf
    show s.pageTable (Function.update s.pages f page g).pageId = some g
    rw [hids g, hown]

end Sound

/-! ## What each call does to a sound pool -/

/-- Writing the old contents back touches the disk under the frame's page and
the dirty bit of the frame. -/
theorem writeBack_eq (s : BufferPool β) {f : FrameId}
    (hf : s.pageTable (s.pages f).pageId = none ∨ s.pageTable (s.pages f).pageId = some f) :
    s.writeBack f = { s with
      disk := { s.disk with
        content := if (s.pages f).isDirty = true ∧ s.pageTable (s.pages f).pageId = some f
          then Function.update s.disk.content (s.pages f).pageId (s.pages f).data
          else s.disk.content }
      pages := Function.update s.pages f { s.pages f with isDirty := false } } := by
  have hself : ∀ b, (s.pages f).isDirty = b →
      Function.update s.pages f { s.pages f with isDirty := b } = s.pages := by
    rintro _ rfl
    exact Function.update_eq_self f s.pages
  unfold writeBack
  by_cases hd : (s.pages f).isDirty = true
  · rw [if_pos hd]
    rcases hf with hn | hsome
    · have hcond : ¬ ((s.pages f).isDirty = true ∧ s.pageTable (s.pages f).pageId = some f) := by
        rw [hn]
        exact fun h => nomatch h.2
      rw [if_neg hcond]
      simp only [flushPage, hn, setPage]
    · rw [if_pos ⟨hd, hsome⟩]
      simp only [flushPage, hsome, setPage, Function.update_self, Function.update_idem]
  · have hcond : ¬ ((s.pages f).isDirty = true ∧ s.pageTable (s.pages f).pageId = some f) :=
      fun h => hd h.1
    rw [if_neg hd, if_neg hcond, hself false (Bool.eq_false_iff.mpr hd)]

/-- **What `FlushPage` can do**: nothing, or copy the contents to disk. -/
theorem flushPage_cases (s : BufferPool β) (p : PageId) :
    (s.pageTable p = none ∧ s.flushPage p = (s, false)) ∨
    ∃ f, s.pageTable p = some f ∧ s.flushPage p =
      ({ s with
          disk := { s.disk with
            content := Function.update s.disk.content p (s.pages f).data }
          pages := Function.update s.pages f { s.pages f with isDirty := false } }, true) := by
  rcases hp : s.pageTable p with _ | f
  · refine .inl ⟨rfl, ?_⟩
    simp only [flushPage, hp]
  · refine .inr ⟨f, rfl, ?_⟩
    simp only [flushPage, hp]

/-- **What a client's write can do**: nothing, or overwrite the contents. -/
theorem writePage_cases (s : BufferPool β) (p : PageId) (data : β) :
    (s.pageTable p = none ∧ s.writePage p data = s) ∨
    ∃ f, s.pageTable p = some f ∧ s.writePage p data =
      { s with pages := Function.update s.pages f { s.pages f with data := data } } := by
  rcases hp : s.pageTable p with _ | f
  · refine .inl ⟨rfl, ?_⟩
    simp only [writePage, hp]
  · refine .inr ⟨f, rfl, ?_⟩
    simp only [writePage, hp, setPage]

/-- The pool after a `FetchPage` that had to find a frame: the frame's old
contents are on disk if they were dirty, and the frame holds `p`. -/
def fetched (s : BufferPool β) (f : FrameId) (p : PageId) (r : LruReplacer) : BufferPool β :=
  let content := if (s.pages f).isDirty = true ∧ s.pageTable (s.pages f).pageId = some f
    then Function.update s.disk.content (s.pages f).pageId (s.pages f).data
    else s.disk.content
  ⟨s.poolSize, Function.update s.pages f ⟨content p, p, 1, false⟩, ⟨content, s.disk.allocated⟩,
    Function.update (Function.update s.pageTable (s.pages f).pageId none) p (some f), r,
    s.freeList.erase f⟩

/-- The last element of a duplicate-free list goes with `erase`. -/
theorem dropLast_eq_erase {l : List FrameId} {f : FrameId} (hn : l.Nodup)
    (hl : l.getLast? = some f) : l.dropLast = l.erase f := by
  have hsplit := List.dropLast_append_getLast? f hl
  have hnot : f ∉ l.dropLast := by
    intro hm
    rw [← hsplit] at hn
    exact (List.nodup_append.mp hn).2.2 f hm f (List.mem_singleton_self f) rfl
  conv_rhs => rw [← hsplit, List.erase_append_right _ hnot, List.erase_cons_head,
    List.append_nil]

/-- **What `FetchPage` can do** to a sound pool: pin a resident page, or fill
a frame from the free list, or fill the replacer's victim, which was the
frame of another page and is free of pins if the replacer is right about it.
Where there is no victim it takes a frame at random. -/
theorem fetchPage_cases (h : s.Sound) {garbage : FrameId} {p : PageId} {s' : BufferPool β}
    {f : FrameId} (hs : s.fetchPage garbage p = some (s', f)) :
    (s.pageTable p = some f ∧ s' = { s with
      replacer := s.replacer.pin f
      pages := Function.update s.pages f
        { s.pages f with pinCount := (s.pages f).pinCount + 1 } }) ∨
    (s.pageTable p = none ∧ 0 ≤ p ∧ s.freeList.getLast? = some f ∧
      s' = s.fetched f p s.replacer) ∨
    (s.pageTable p = none ∧ 0 ≤ p ∧ s.freeList = [] ∧ s.replacer.lruList.getLast? = some f ∧
      ((s.pages f).pinCount = 0 → s' = s.fetched f p (s.replacer.pin f))) ∨
    (s.pageTable p = none ∧ s.freeList = [] ∧ s.replacer.lruList = []) := by
  unfold fetchPage at hs
  rcases hp : s.pageTable p with _ | g
  · simp only [hp] at hs
    rcases hl : s.freeList.getLast? with _ | g
    · have hnil := List.getLast?_eq_none_iff.mp hl
      simp only [hl] at hs
      rcases h.replacer.victim_eq with ⟨hempty, -⟩ | ⟨v, hv, hvic⟩
      · exact .inr (.inr (.inr ⟨rfl, hnil, hempty⟩))
      · simp only [hvic, Option.getD_some] at hs
        split at hs
        · rename_i hcond
          cases hs
          refine .inr (.inr (.inl ⟨rfl, hcond.2, hnil, hv, fun hpin => ?_⟩))
          have hres := h.owned f hcond.1 (by rw [hnil]; exact List.not_mem_nil)
          rw [writeBack_eq { s with replacer := s.replacer.pin f } (.inr hres)]
          simp only [install, fetched, Function.update_self, Function.update_idem, hpin, zero_add,
            hnil, List.erase_nil]
        · cases hs
    · simp only [hl] at hs
      split at hs
      · rename_i hpos
        cases hs
        have hmem : f ∈ s.freeList := List.mem_of_getLast? hl
        obtain ⟨hlt, hpin, hid⟩ := h.free f hmem
        have hnone : s.pageTable (s.pages f).pageId = none := hid ▸ h.pageTable_invalid
        refine .inr (.inl ⟨rfl, hpos, rfl, ?_⟩)
        rw [writeBack_eq { s with freeList := s.freeList.dropLast } (.inl hnone)]
        simp only [install, fetched, Function.update_self, Function.update_idem, hpin, zero_add,
          dropLast_eq_erase h.freeNodup hl]
      · cases hs
  · simp only [hp, Option.some.injEq, Prod.mk.injEq] at hs
    obtain ⟨hs, rfl⟩ := hs
    exact .inl ⟨rfl, hs.symm⟩

variable [Zero β]

/-- **What `NewPage` can do** to a sound pool where it is regular: report
that every frame is in use, or zero a free frame. -/
theorem newPage_cases (h : s.Sound) {A : Allocator} (hreg : s.Regular A .newPage) :
    (s.freeList = [] ∧ s.replacer.lruList = [] ∧ s.newPage A = (s, none)) ∨
    ∃ f, s.freeList.getLast? = some f ∧ s.pageTable (A.next s.disk.allocated) = none ∧
      s.newPage A =
        (⟨s.poolSize, Function.update s.pages f ⟨0, A.next s.disk.allocated, 1, true⟩,
          ⟨s.disk.content, insert (A.next s.disk.allocated) s.disk.allocated⟩,
          Function.update (Function.update s.pageTable (s.pages f).pageId none)
            (A.next s.disk.allocated) (some f),
          s.replacer, s.freeList.erase f⟩, some (A.next s.disk.allocated, f)) := by
  rcases hl : s.freeList.getLast? with _ | f
  · have hnil := List.getLast?_eq_none_iff.mp hl
    have hempty := hreg.2 hnil
    refine .inl ⟨hnil, hempty, ?_⟩
    rcases h.replacer.victim_eq with ⟨-, hvic⟩ | ⟨v, hv, -⟩
    · simp only [newPage, hl, hvic]
    · rw [hempty] at hv
      cases hv
  · have hne : s.freeList ≠ [] := fun e => by
      rw [e] at hl
      cases hl
    obtain ⟨-, -, hid⟩ := h.free f (List.mem_of_getLast? hl)
    have hsame : Function.update s.pageTable (s.pages f).pageId none = s.pageTable := by
      rw [Function.update_eq_self_iff, hid, h.pageTable_invalid]
    refine .inr ⟨f, rfl, hreg.1 hne, ?_⟩
    rw [hsame, ← dropLast_eq_erase h.freeNodup hl]
    simp only [newPage, hl, allocatePage, installNew]

/-- **What `DeletePage` can do**: free the id only, or refuse a pinned page
after freeing its id, or empty the frame and put it on the free list. -/
theorem deletePage_cases (s : BufferPool β) (p : PageId) :
    (s.pageTable p = none ∧ s.deletePage p =
      ({ s with disk := { s.disk with allocated := s.disk.allocated.erase p } }, true)) ∨
    ∃ f, s.pageTable p = some f ∧
      (((s.pages f).pinCount ≠ 0 ∧ s.deletePage p =
        ({ s with disk := { s.disk with allocated := s.disk.allocated.erase p } }, false)) ∨
      ((s.pages f).pinCount = 0 ∧ s.deletePage p =
        ({ s with
            disk := { s.disk with allocated := s.disk.allocated.erase p }
            pages := Function.update s.pages f
              { s.pages f with pageId := invalidPageId, data := 0 }
            pageTable := Function.update s.pageTable p none
            freeList := s.freeList ++ [f] }, true))) := by
  rcases hp : s.pageTable p with _ | f
  · refine .inl ⟨rfl, ?_⟩
    simp only [deletePage, hp]
  · refine .inr ⟨f, rfl, ?_⟩
    by_cases hpin : (s.pages f).pinCount = 0
    · refine .inr ⟨hpin, ?_⟩
      simp only [deletePage, hp, hpin, ne_eq, not_true_eq_false, if_false]
    · refine .inl ⟨hpin, ?_⟩
      simp only [deletePage, hp, ne_eq, hpin, not_false_eq_true, if_true]

omit [Zero β] in
/-- **What `UnpinPage` can do** to a sound pool: nothing, or take a pin off
the page, tell the replacer when that was the last one, and write the page to
disk if the caller says it is dirty. -/
theorem unpinPage_cases (h : s.Sound) (p : PageId) (d : Bool) :
    (s.pageTable p = none ∧ s.unpinPage p d = (s, false)) ∨
    ∃ f, s.pageTable p = some f ∧ s.unpinPage p d =
      ({ s with
          disk := { s.disk with
            content := if d then Function.update s.disk.content p (s.pages f).data
              else s.disk.content }
          pages := Function.update s.pages f
            { s.pages f with
              pinCount := lessPin (s.pages f).pinCount
              isDirty := if d then false else (s.pages f).isDirty }
          replacer := if lessPin (s.pages f).pinCount = 0 then s.replacer.unpin f
            else s.replacer }, true) := by
  rcases hp : s.pageTable p with _ | f
  · refine .inl ⟨rfl, ?_⟩
    simp only [unpinPage, hp]
  · refine .inr ⟨f, rfl, ?_⟩
    have hpos : ¬ (s.pages f).pinCount < 0 := not_lt.mpr (h.resident p f hp).2.2.2.2
    cases d with
    | false => simp [unpinPage, hp, hpos, unpinFrame]
    | true => simp [unpinPage, hp, hpos, unpinFrame, flushPage, setPage]

/-! ## Regular calls keep a pool sound -/

theorem sound_init (n : ℕ) : (init n : BufferPool β).Sound where
  replacer := LruReplacer.wellFormed_init n
  maxSize := rfl
  freeNodup := List.nodup_range
  free := fun _ hf => ⟨List.mem_range.mp hf, rfl, rfl⟩
  resident := fun _ _ h => nomatch h
  owned := fun _ hf hn => absurd (List.mem_range.mpr hf) hn

omit [Zero β] in
theorem Sound.fetched (h : s.Sound) {f : FrameId} {p : PageId} {r : LruReplacer}
    (hf : f < s.poolSize) (hp : 0 ≤ p) (hnone : s.pageTable p = none) (hr : r.WellFormed)
    (hmax : r.maxSize = s.poolSize) : (s.fetched f p r).Sound :=
  h.claim hf hp hnone rfl Int.one_nonneg hr hmax

theorem Sound.deletePage (h : s.Sound) (p : PageId) : (s.deletePage p).1.Sound := by
  rcases s.deletePage_cases p with ⟨-, hs⟩ | ⟨f, hp, ⟨-, hs⟩ | ⟨hpin, hs⟩⟩
  · rw [hs]
    exact ⟨h.replacer, h.maxSize, h.freeNodup, h.free, h.resident, h.owned⟩
  · rw [hs]
    exact ⟨h.replacer, h.maxSize, h.freeNodup, h.free, h.resident, h.owned⟩
  · obtain ⟨hlt, hid, hnf, hpos, hcnt⟩ := h.resident p f hp
    rw [hs]
    refine ⟨h.replacer, h.maxSize, ?_, ?_, ?_, ?_⟩
    · refine List.nodup_append.mpr ⟨h.freeNodup, List.nodup_singleton f, ?_⟩
      rintro g hg _ hf rfl
      exact hnf (List.mem_singleton.mp hf ▸ hg)
    · intro g hg
      by_cases hgf : g = f
      · subst hgf
        simp only [Function.update_self]
        exact ⟨hlt, hpin, trivial⟩
      · simp only [Function.update_of_ne hgf]
        exact h.free g ((List.mem_append.mp hg).resolve_right
          (fun hm => hgf (List.mem_singleton.mp hm)))
    · intro q g hq
      have hq : Function.update s.pageTable p none q = some g := hq
      by_cases hqp : q = p
      · rw [hqp, Function.update_self] at hq
        cases hq
      · rw [Function.update_of_ne hqp] at hq
        obtain ⟨hlt', hid', hnf', hpos', hcnt'⟩ := h.resident q g hq
        have hgf : g ≠ f := fun e => hqp (hid'.symm.trans (e ▸ hid))
        simp only [Function.update_of_ne hgf]
        refine ⟨hlt', hid', ?_, hpos', hcnt'⟩
        intro hm
        exact (List.mem_append.mp hm).elim hnf' (fun h1 => hgf (List.mem_singleton.mp h1))
    · intro g hg hgnf
      have hgf : g ≠ f := fun e => hgnf (List.mem_append_right _ (e ▸ List.mem_singleton_self f))
      have hown := h.owned g hg (fun hm => hgnf (List.mem_append_left _ hm))
      have hqp : (s.pages g).pageId ≠ p := fun e => by
        rw [e, hp] at hown
        exact hgf (Option.some.inj hown).symm
      simp only [Function.update_of_ne hgf, Function.update_of_ne hqp, hown]

omit [Zero β] in
theorem Sound.unpinPage (h : s.Sound) (p : PageId) (d : Bool) : (s.unpinPage p d).1.Sound := by
  rcases unpinPage_cases h p d with ⟨-, hs⟩ | ⟨f, hp, hs⟩
  · rw [hs]
    exact h
  · obtain ⟨hlt, -, hnf, -, hcnt⟩ := h.resident p f hp
    have hless : 0 ≤ lessPin (s.pages f).pinCount := by
      unfold lessPin
      split <;> omega
    rw [hs]
    refine h.retouch hnf rfl (fun _ => hless) ?_ ?_
    · split
      · exact h.replacer.unpin (h.maxSize ▸ hlt)
      · exact h.replacer
    · split
      · exact (LruReplacer.maxSize_unpin _ _).trans h.maxSize
      · exact h.maxSize

omit [Zero β] in
theorem Sound.flushPage (h : s.Sound) (p : PageId) : (s.flushPage p).1.Sound := by
  rcases s.flushPage_cases p with ⟨-, hs⟩ | ⟨f, hp, hs⟩
  · rw [hs]
    exact h
  · obtain ⟨-, -, hnf, -, hcnt⟩ := h.resident p f hp
    rw [hs]
    exact h.retouch hnf rfl (fun _ => hcnt) h.replacer h.maxSize

omit [Zero β] in
theorem Sound.writePage (h : s.Sound) (p : PageId) (data : β) : (s.writePage p data).Sound := by
  rcases s.writePage_cases p data with ⟨-, hs⟩ | ⟨f, hp, hs⟩
  · rw [hs]
    exact h
  · obtain ⟨-, -, hnf, -, hcnt⟩ := h.resident p f hp
    rw [hs]
    exact h.retouch hnf rfl (fun _ => hcnt) h.replacer h.maxSize

theorem Sound.newPage (h : s.Sound) {A : Allocator} (hreg : s.Regular A .newPage) :
    (s.newPage A).1.Sound := by
  rcases newPage_cases h hreg with ⟨-, -, hs⟩ | ⟨f, hl, hnone, hs⟩
  · rw [hs]
    exact h
  · rw [hs]
    exact h.claim (h.free f (List.mem_of_getLast? hl)).1 (A.valid _) hnone rfl Int.one_nonneg
      h.replacer h.maxSize

omit [Zero β] in
/-- The victim of a replacer is a frame of the pool. -/
theorem Sound.lt_of_getLast? (h : s.Sound) {f : FrameId}
    (hl : s.replacer.lruList.getLast? = some f) : f < s.poolSize :=
  h.maxSize ▸ h.replacer.lt_maxSize f (List.mem_of_getLast? hl)

omit [Zero β] in
theorem Sound.pinFrame (h : s.Sound) {p : PageId} {f : FrameId} (hp : s.pageTable p = some f) :
    ({ s with
      replacer := s.replacer.pin f
      pages := Function.update s.pages f
        { s.pages f with pinCount := (s.pages f).pinCount + 1 } } : BufferPool β).Sound := by
  obtain ⟨-, -, hnf, -, hcnt⟩ := h.resident p f hp
  exact h.retouch hnf rfl (fun _ => Int.le_add_one hcnt) (h.replacer.pin f)
    ((LruReplacer.maxSize_pin _ _).trans h.maxSize)

omit [Zero β] in
/-- A fetch keeps a pool sound, given that the frame the replacer offers is
not pinned. -/
theorem Sound.fetchPage (h : s.Sound) {A : Allocator} {garbage : FrameId} {p : PageId}
    {s' : BufferPool β} {f : FrameId} (hreg : s.Regular A (.fetchPage p garbage))
    (hvic : s.pageTable p = none → s.freeList = [] → s.replacer.lruList.getLast? = some f →
      (s.pages f).pinCount = 0)
    (hs : s.fetchPage garbage p = some (s', f)) : s'.Sound := by
  rcases fetchPage_cases h hs with ⟨hp, rfl⟩ | ⟨hn, hp, hl, rfl⟩ | ⟨hn, hp, hnil, hl, hs'⟩ |
    ⟨hn, hnil, hempty⟩
  · exact h.pinFrame hp
  · exact h.fetched (h.free f (List.mem_of_getLast? hl)).1 hp hn h.replacer h.maxSize
  · rw [hs' (hvic hn hnil hl)]
    exact h.fetched (h.lt_of_getLast? hl) hp hn (h.replacer.pin f)
      ((LruReplacer.maxSize_pin _ _).trans h.maxSize)
  · exact absurd hempty (hreg hn hnil)

end BufferPool

end MiniSql
