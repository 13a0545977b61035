import MiniSql.DiskAllocation

/-!
# Logical pages

The logical pages are independent cells: what `ReadPage` gives is what
`WritePage` wrote last, and zeroes where nothing was written
(`cells_of_sparesLast`). And a page that has been handed out is not handed out
again before it is released (`noDouble_of_sparesLast`).

Both hold of the files whose size is an `int`. A write at the last page below
the offset `2 ^ 31` makes the size `2 ^ 31`, `GetFileSize` gives a negative number,
and every page is read as zeroes from then on.
-/

namespace MiniSql.DiskManager

open Bytes DiskFile Machine

variable {d d' : DiskManager} {i j k n o : ℕ} {id : Int32} {pageData : Mem} {c : DiskCall}

/-- The place of a logical page is below the offset `2 ^ 31`. -/
def PageInRange (id : Int32) : Prop :=
  0 ≤ id.toInt ∧ physicalPage id.toInt.toNat * pageSize < 2 ^ 31

instance (id : Int32) : Decidable (PageInRange id) := inferInstanceAs (Decidable (_ ∧ _))

/-- The offsets of a call are below `2 ^ 31`. An allocation that makes a new
extent writes its bitmap. -/
def InRange (d : DiskManager) : DiskCall → Prop
  | .allocatePage => d.FindsFree ∨ bitmapPage d.numExtents * pageSize < 2 ^ 31
  | .deAllocatePage _ => True
  | .readPage id => PageInRange id
  | .writePage id _ => PageInRange id

/-- So they are, and a page that is written is not the last one there. -/
def SparesLast (d : DiskManager) : DiskCall → Prop
  | .writePage id _ => PageInRange id ∧ physicalPage id.toInt.toNat ≠ 2 ^ 19 - 1
  | c => d.InRange c

/-- The extents and the bits that are set stay. -/
def Grows (d d' : DiskManager) : Prop :=
  d.numExtents ≤ d'.numExtents ∧ ∀ j < d.numExtents, ∀ o < bitmapSize,
    (d.bitmap j).isAllocated o = true → (d'.bitmap j).isAllocated o = true

/-- The logical pages stay. -/
def KeepsCells (d d' : DiskManager) : Prop :=
  ∀ q, ∀ a < pageSize, d'.file.page (physicalPage q) a = d.file.page (physicalPage q) a

/-! ## The calls -/

theorem room_of_inRange (h : d.InRange .allocatePage) : d.numExtents < 17 ∨ d.FindsFree := by
  refine h.elim .inr (fun hlt => .inl ?_)
  rw [bitmapPage, bitmapSize_eq, pageSize] at hlt
  omega

/-- **An allocation** hands out a page whose bit was not set, and sets it. -/
theorem Small.allocate (h : d.Small) (hroom : d.numExtents < 17 ∨ d.FindsFree) :
    ∃ j o d', d.allocatePage = some (logicalPage j o, d') ∧ d'.Small ∧ j < d'.numExtents ∧
      o < bitmapSize ∧ (d'.bitmap j).isAllocated o = true ∧
      (j < d.numExtents → (d.bitmap j).isAllocated o = false) ∧ Grows d d' ∧ KeepsCells d d' := by
  have hn := h.extents
  rcases allocatePage_cases h with
    ⟨j, o, p, m', hj, hpage, hcount, heq⟩ | ⟨hfull, o, p, m', hpage, hcount, heq⟩
  · obtain ⟨ho, hfree, hbits⟩ := BitmapPage.allocatePage_eq_some hpage
    have hext : m'.read32 4 = d.numExtents := (counts_of_count hcount).extents
    refine ⟨j, o, _, heq, h.allocatePage heq hroom, hj.trans_eq hext.symm, ho, ?_,
      fun _ => hfree, ⟨hext.ge, fun i hi o' ho' hset => ?_⟩, fun q a ha =>
        (page_put ha).trans (if_neg (physicalPage_ne q j).2)⟩
    · rw [isAllocated_put ho, if_pos rfl, hbits]
      exact .inl rfl
    · rw [isAllocated_put ho']
      by_cases hij : bitmapPage i = bitmapPage j
      · rw [if_pos hij, hbits, ← bitmapPage_inj.mp hij]
        exact .inr hset
      · rw [if_neg hij]
        exact hset
  · obtain ⟨ho, -, hbits⟩ := BitmapPage.allocatePage_eq_some hpage
    have hext : m'.read32 4 = d.numExtents + 1 := by
      rw [(counts_of_count hcount).extents, Mem.read32_write32]
      omega
    refine ⟨d.numExtents, o, _, heq, h.allocatePage heq hroom, hext.ge, ho, ?_,
      fun hlt => absurd hlt (lt_irrefl _),
        ⟨(Nat.le_succ _).trans hext.ge, fun i hi o' ho' hset => ?_⟩,
      fun q a ha => ?_⟩
    · rw [isAllocated_put ho, if_neg (bitmapPage_ne_zero _)]
      refine (isAllocated_put (m := m') ho).trans ?_
      rw [if_pos rfl, hbits]
      exact .inl rfl
    · rw [isAllocated_put ho', if_neg (bitmapPage_ne_zero _)]
      refine (isAllocated_put (m := m') ho').trans ?_
      rw [if_neg (fun hc => hi.ne (bitmapPage_inj.mp hc))]
      exact hset
    · rw [page_put ha, if_neg (physicalPage_ne q 0).1, page_put ha,
        if_neg (physicalPage_ne q d.numExtents).2]

/-- A release changes the meta page only. -/
theorem Small.release (h : d.Small) (id : Int32) : ∃ d', d.deAllocatePage id = some d' ∧
    d'.Small ∧ Grows d d' ∧ KeepsCells d d' := by
  have hput : ∀ m' : Mem, m'.read32 4 = d.numExtents →
      Grows d ⟨d.file.put 0 m', m'⟩ ∧ KeepsCells d ⟨d.file.put 0 m', m'⟩ := fun m' hext =>
    ⟨⟨hext.ge, fun j _ o ho hset =>
      ((isAllocated_put ho).trans (if_neg (bitmapPage_ne_zero j))).trans hset⟩,
      fun q _ ha => (page_put ha).trans (if_neg (physicalPage_ne q 0).1)⟩
  rcases deAllocatePage_cases h id with ⟨-, m', hcount, heq⟩ | ⟨-, heq⟩
  · have hext := (counts_of_count hcount).extents
    exact ⟨_, heq, (h.deAllocatePage heq).1, hput m' hext⟩
  · exact ⟨_, heq, (h.deAllocatePage heq).1, hput d.metaData rfl⟩

/-- **What `ReadPage` reads.** -/
theorem Small.readPage_eq (h : d.Small) (hid : PageInRange id) :
    d.readPage id = some (d.file.page (physicalPage id.toInt.toNat)) := by
  have hlt : physicalPage id.toInt.toNat < 2 ^ 31 :=
    (Nat.le_mul_of_pos_right _ (by decide)).trans_lt hid.2
  rw [readPage, if_pos hid.1, mapPageId_eq hid.1 hlt]
  exact readPhysicalPage_eq h.fits hid.2

/-- **A write** changes one logical page, and neither the meta page nor a
bitmap. -/
theorem writePage_eq (hid : PageInRange id) (pageData : Mem) : ∃ d',
    d.writePage id pageData = some d' ∧ d'.metaData = d.metaData ∧
      d'.file = d.file.put (physicalPage id.toInt.toNat) pageData := by
  have hlt : physicalPage id.toInt.toNat < 2 ^ 31 :=
    (Nat.le_mul_of_pos_right _ (by decide)).trans_lt hid.2
  refine ⟨⟨d.file.put (physicalPage id.toInt.toNat) pageData, d.metaData⟩, ?_, rfl, rfl⟩
  rw [writePage, if_pos hid.1, mapPageId_eq hid.1 hlt, writePhysicalPage_eq, Option.map_some]

theorem Small.write (h : d.Small) (hid : PageInRange id)
    (hlast : physicalPage id.toInt.toNat ≠ 2 ^ 19 - 1) (pageData : Mem) : ∃ d',
    d.writePage id pageData = some d' ∧ d'.Small ∧ Grows d d' ∧ ∀ q, ∀ a < pageSize,
      d'.file.page (physicalPage q) a =
        if q = id.toInt.toNat then pageData a else d.file.page (physicalPage q) a := by
  obtain ⟨⟨f, m⟩, heq, rfl, rfl⟩ := writePage_eq (d := d) hid pageData
  have hlt := hid.2
  refine ⟨_, heq, small_put h.fits (by rw [pageSize] at hlt; omega) h.extents,
    ⟨le_rfl, fun j _ o ho hset => ?_⟩, fun q a ha => ?_⟩
  · exact ((isAllocated_put ho).trans (if_neg (physicalPage_ne _ j).2.symm)).trans hset
  · rw [page_put ha]
    by_cases hq : q = id.toInt.toNat
    · rw [if_pos hq, if_pos (congrArg physicalPage hq)]
    · rw [if_neg hq, if_neg (fun hc => hq (physicalPage_injective hc))]

/-! ## Allocation -/

/-- One call, with the ids that have been handed out and not been released
since. -/
def stepHeld (s : DiskManager × List PageId) (c : DiskCall) :
    Option ((DiskManager × List PageId) × DiskAnswer) :=
  (s.1.step c).map (fun r => ((r.1, match c, r.2 with
    | .allocatePage, .allocated id => id :: s.2
    | .deAllocatePage id, _ => s.2.filter (fun i => i ≠ id.toInt)
    | _, _ => s.2), r.2))

/-- **The next allocation hands out a new page** of an extent, and so were the
pages that are held. -/
def NoDouble (s : DiskManager × List PageId) : Prop :=
  (∃ id d', s.1.allocatePage = some (id, d') ∧ id ≠ invalidPageId ∧ id ∉ s.2 ∧
      id < (d'.numExtents * bitmapSize : ℕ)) ∧
    ∀ id ∈ s.2, id < (s.1.numExtents * bitmapSize : ℕ)

/-- The bits of the pages that are held are set. -/
structure HeldSet (s : DiskManager × List PageId) : Prop where
  small : s.1.Small
  held : ∀ id ∈ s.2, ∃ j < s.1.numExtents, ∃ o < bitmapSize, id = logicalPage j o ∧
    (s.1.bitmap j).isAllocated o = true

/-- Pages that are held stay so while the bitmaps grow. -/
theorem HeldSet.grow {s : DiskManager × List PageId} (h : HeldSet s) (hs : d'.Small)
    (hg : Grows s.1 d') {held : List PageId} (hheld : ∀ id ∈ held, id ∈ s.2) :
    HeldSet (d', held) where
  small := hs
  held id hid := by
    obtain ⟨j, hj, o, ho, heq, hset⟩ := h.held id (hheld id hid)
    exact ⟨j, hj.trans_le hg.1, o, ho, heq, hg.2 j hj o ho hset⟩

theorem HeldSet.step {s s' : DiskManager × List PageId} (h : HeldSet s) {answer : DiskAnswer}
    (hc : s.1.SparesLast c) (hstep : stepHeld s c = some (s', answer)) : HeldSet s' := by
  obtain ⟨⟨d', answer'⟩, heq, hans⟩ := Option.map_eq_some_iff.mp hstep
  cases hans
  cases c with
  | allocatePage =>
    obtain ⟨j, o, d'', hallocate, hs, hj, ho, hset, -, hg, -⟩ :=
      h.small.allocate (room_of_inRange hc)
    rw [DiskManager.step, hallocate] at heq
    cases heq
    have hgrow := h.grow hs hg (fun _ hid => hid)
    refine ⟨hs, fun id hid => ?_⟩
    rcases List.mem_cons.mp hid with rfl | hid
    · exact ⟨j, hj, o, ho, rfl, hset⟩
    · exact hgrow.held id hid
  | deAllocatePage id =>
    obtain ⟨d'', hrelease, hs, hg, -⟩ := h.small.release id
    rw [DiskManager.step, hrelease] at heq
    cases heq
    exact h.grow hs hg (fun _ hid => (List.mem_filter.mp hid).1)
  | readPage id =>
    rw [DiskManager.step, h.small.readPage_eq hc] at heq
    cases heq
    exact h
  | writePage id pageData =>
    obtain ⟨d'', hwrite, hs, hg, -⟩ := h.small.write hc.1 hc.2 pageData
    rw [DiskManager.step, hwrite] at heq
    cases heq
    exact h.grow hs hg (fun _ hid => hid)

/-- **No page is handed out twice** in any run on a new file whose offsets are
below `2 ^ 31` and that does not write the last page there. -/
theorem noDouble_of_sparesLast {s : DiskManager × List PageId}
    (h : Reaches stepHeld (fun s c => s.1.SparesLast c) (fresh, []) s)
    (hc : s.1.InRange .allocatePage) : NoDouble s := by
  have hheld := h.invariant (I := HeldSet) ⟨small_fresh, fun _ hid => absurd hid List.not_mem_nil⟩
    (fun _ _ _ _ hs hc hstep => hs.step hc hstep)
  obtain ⟨j, o, d', heq, -, hj, ho, -, hfree, -⟩ := hheld.small.allocate (room_of_inRange hc)
  obtain ⟨hpos, hlt⟩ := logicalPage_lt hj ho
  refine ⟨⟨_, d', heq, fun hinvalid => ?_, fun hmem => ?_, hlt⟩, fun id hid => ?_⟩
  · rw [hinvalid] at hpos
    exact absurd hpos (by decide)
  · obtain ⟨j', hj', o', ho', hid, hset⟩ := hheld.held _ hmem
    obtain ⟨rfl, rfl⟩ := (logicalPage_inj ho ho').mp hid
    rw [hfree hj'] at hset
    cases hset
  · obtain ⟨j', hj', o', ho', rfl, -⟩ := hheld.held id hid
    exact (logicalPage_lt hj' ho').2

/-- The page after the one that is held, and written. -/
theorem noDouble_of_sparesLast_write : ∃ s, run stepHeld (fresh, [])
    [.allocatePage, .writePage 0 (fun _ => 1)] = some (s, [.allocated 0, .done]) ∧
      s.2 = [0] ∧ NoDouble s := by
  have hallocate : (stepHeld (fresh, []) .allocatePage).map (fun r =>
      (r.1.1.numExtents, r.1.2, r.2)) = some (1, [0], .allocated 0) := by decide +kernel
  obtain ⟨⟨⟨d, held⟩, answer⟩, hstep, hout⟩ := Option.map_eq_some_iff.mp hallocate
  simp only [Prod.mk.injEq] at hout
  obtain ⟨hn, rfl, rfl⟩ := hout
  obtain ⟨d', heq, hmeta, -⟩ := @writePage_eq d 0 (by decide) (fun _ => 1)
  have hstep' : stepHeld (d, [0]) (.writePage 0 (fun _ => 1)) = some ((d', [0]), .done) := by
    rw [stepHeld, step, heq]
    rfl
  have hspares : d.SparesLast (.writePage 0 (fun _ => 1)) :=
    ⟨(by decide : PageInRange 0), (by decide : physicalPage 0 ≠ 2 ^ 19 - 1)⟩
  have hrange : fresh.SparesLast .allocatePage :=
    (.inr (by decide) : fresh.InRange .allocatePage)
  have hreach : Reaches stepHeld (fun s c => s.1.SparesLast c) (fresh, []) (d', [0]) :=
    .next (.next .init hrange hstep) hspares hstep'
  have hn' : d'.numExtents = 1 := (congrArg (fun m : Mem => m.read32 4) hmeta).trans hn
  refine ⟨_, run_cons hstep (run_cons hstep' rfl), rfl, noDouble_of_sparesLast hreach (.inr ?_)⟩
  rw [hn']
  decide

/-- **A page is handed out twice** after a write of the last page below the
offset `2 ^ 31`. -/
theorem not_noDouble : ¬ ∀ s,
    Reaches stepHeld (fun s c => s.1.InRange c) (fresh, []) s → s.1.InRange .allocatePage →
      NoDouble s := by
  intro h
  obtain ⟨d, heq, hmeta, -⟩ := @writePage_eq fresh 524269 (by decide) (fun _ => 1)
  have hn : d.numExtents = 0 := congrArg (fun m : Mem => m.read32 4) hmeta
  have hwrite : stepHeld (fresh, []) (.writePage 524269 (fun _ => 1)) = some ((d, []), .done) := by
    rw [stepHeld, step, heq]
    rfl
  have hrun : ((fresh.writePage 524269 (fun _ => 1)).bind (fun d => (stepHeld (d, [])
      .allocatePage).map (fun r => (r.1.2, r.1.1.numExtents, r.1.1.allocatePage.map Prod.fst)))) =
      some ([0], 1, some 0) := by decide +kernel
  rw [heq, Option.bind_some] at hrun
  obtain ⟨⟨s, answer⟩, hallocate, hout⟩ := Option.map_eq_some_iff.mp hrun
  obtain ⟨hheld, hout⟩ := Prod.mk.inj hout
  obtain ⟨hextents, hagain⟩ := Prod.mk.inj hout
  have hrange : fresh.InRange (.writePage 524269 (fun _ => 1)) :=
    (by decide : PageInRange 524269)
  have hrange' : d.InRange .allocatePage := .inr (by rw [hn]; decide)
  have hreach : Reaches stepHeld (fun s c => s.1.InRange c) (fresh, []) s :=
    .next (.next .init hrange hwrite) hrange' hallocate
  obtain ⟨⟨id, d', hid, -, hnew, -⟩, -⟩ := h s hreach (.inr (by rw [hextents]; decide))
  rw [hid, Option.map_some, Option.some_inj] at hagain
  rw [hheld] at hnew
  exact hnew (List.mem_singleton.mpr hagain)

/-! ## Cells -/

/-- What was written last to a page, given what was in it before. -/
def lastWritten (q : Int32) : List UInt8 → List DiskCall → List UInt8
  | page, [] => page
  | page, .writePage id pageData :: calls =>
    lastWritten q (if id = q then pageData.bytes 0 pageSize else page) calls
  | page, _ :: calls => lastWritten q page calls

/-- **Independent cells**: the pages are read as they were written, and no write
changes the meta page or a bitmap page. -/
def IndependentCells (d : DiskManager) (calls : List DiskCall) : Prop :=
  (∀ q, PageInRange q → ∃ page, d.readPage q = some page ∧
      page.bytes 0 pageSize = lastWritten q (List.replicate pageSize 0) calls) ∧
    ∀ id pageData d', PageInRange id → d.writePage id pageData = some d' →
      d'.metaData = d.metaData ∧ ∀ a < pageSize, d'.file.page 0 a = d.file.page 0 a ∧
        ∀ i, d'.file.page (bitmapPage i) a = d.file.page (bitmapPage i) a

/-- `MapPageId` gives a page a place of its own, which is neither that of the
meta page nor that of a bitmap page. -/
def HasOwnPlace (id : Int32) : Prop :=
  (∀ id', PageInRange id' → mapPageId id' = mapPageId id → id' = id) ∧
    mapPageId id ≠ metaPageId ∧ ∀ i, mapPageId id ≠ bitmapPage i

theorem mapPageId_of_inRange (hid : PageInRange id) :
    mapPageId id = physicalPage id.toInt.toNat :=
  mapPageId_eq hid.1 ((Nat.le_mul_of_pos_right _ (by decide)).trans_lt hid.2)

/-- Ids that are not negative, by their numbers. -/
theorem toNat_inj {id' : Int32} (hid : PageInRange id) (hid' : PageInRange id') :
    id.toInt.toNat = id'.toInt.toNat ↔ id = id' := by
  have hpos := hid.1
  have hpos' := hid'.1
  rw [← Int32.toInt_inj]
  omega

theorem hasOwnPlace (hid : PageInRange id) : HasOwnPlace id := by
  refine ⟨fun id' hid' heq => ?_, fun heq => ?_, fun i heq => ?_⟩
  · rw [mapPageId_of_inRange hid, mapPageId_of_inRange hid', Int.natCast_inj] at heq
    exact (toNat_inj hid' hid).mp (physicalPage_injective heq)
  · rw [mapPageId_of_inRange hid] at heq
    have hzero : (physicalPage id.toInt.toNat : ℤ) = (0 : ℕ) := heq
    exact (physicalPage_ne id.toInt.toNat 0).1 (Int.natCast_inj.mp hzero)
  · rw [mapPageId_of_inRange hid, Int.natCast_inj] at heq
    exact (physicalPage_ne id.toInt.toNat i).2 heq

/-- A run of calls, from a state whose pages are known. -/
theorem Small.cells (h : d.Small) {calls : List DiskCall} (hm : Meets step SparesLast d calls)
    {f : Int32 → List UInt8} (hcell : ∀ q, PageInRange q →
      (d.file.page (physicalPage q.toInt.toNat)).bytes 0 pageSize = f q) :
    ∃ d' answers, run DiskManager.step d calls = some (d', answers) ∧ d'.Small ∧
      ∀ q, PageInRange q → (d'.file.page (physicalPage q.toInt.toNat)).bytes 0 pageSize =
        lastWritten q (f q) calls := by
  induction calls generalizing d f with
  | nil => exact ⟨d, [], rfl, h, hcell⟩
  | cons c calls ih =>
    have hrest : ∀ {d₁ : DiskManager} {answer : DiskAnswer} {g : Int32 → List UInt8},
        d.step c = some (d₁, answer) → d₁.Small →
        (∀ q, PageInRange q →
          (d₁.file.page (physicalPage q.toInt.toNat)).bytes 0 pageSize = g q) →
        (∀ q, lastWritten q (f q) (c :: calls) = lastWritten q (g q) calls) →
        ∃ d' answers, run DiskManager.step d (c :: calls) = some (d', answers) ∧ d'.Small ∧
          ∀ q, PageInRange q → (d'.file.page (physicalPage q.toInt.toNat)).bytes 0 pageSize =
            lastWritten q (f q) (c :: calls) := by
      intro d₁ answer g hstep hs hg hlast
      obtain ⟨d', answers, hrun, hs', hcells⟩ := ih hs ((meets_cons hstep calls).mp hm).2 hg
      exact ⟨d', _, run_cons hstep hrun, hs', fun q hq => (hcells q hq).trans (hlast q).symm⟩
    have hkeep : ∀ {d₁ : DiskManager}, KeepsCells d d₁ → ∀ q, PageInRange q →
        (d₁.file.page (physicalPage q.toInt.toNat)).bytes 0 pageSize = f q :=
      fun hk q hq => (Mem.bytes_congr (fun a ha => by
        rw [Nat.zero_add]
        exact hk _ a ha)).trans (hcell q hq)
    cases c with
    | allocatePage =>
      obtain ⟨j, o, d₁, heq, hs, -, -, -, -, -, hk⟩ := h.allocate (room_of_inRange hm.1)
      exact hrest (congrArg (Option.map _) heq) hs (hkeep hk) (fun _ => rfl)
    | deAllocatePage id =>
      obtain ⟨d₁, heq, hs, -, hk⟩ := h.release id
      exact hrest (congrArg (Option.map _) heq) hs (hkeep hk) (fun _ => rfl)
    | readPage id =>
      exact hrest (congrArg (Option.map _) (h.readPage_eq hm.1)) h hcell (fun _ => rfl)
    | writePage id pageData =>
      obtain ⟨d₁, heq, hs, -, hcells⟩ := h.write hm.1.1 hm.1.2 pageData
      refine hrest (g := fun q => if id = q then pageData.bytes 0 pageSize else f q)
        (congrArg (Option.map _) heq) hs (fun q hq => ?_) (fun _ => rfl)
      by_cases hidq : id = q
      · rw [if_pos hidq]
        refine Mem.bytes_congr (fun a ha => ?_)
        rw [Nat.zero_add, hcells _ a ha, if_pos (by rw [hidq])]
      · rw [if_neg hidq, ← hcell q hq]
        refine Mem.bytes_congr (fun a ha => ?_)
        rw [Nat.zero_add, hcells _ a ha,
          if_neg (fun hc => hidq ((toNat_inj hq hm.1.1).mp hc).symm)]

/-- **The logical pages are independent cells** in every run on a new file whose
offsets are below `2 ^ 31` and that does not write the last page there. -/
theorem cells_of_sparesLast {calls : List DiskCall} (hm : Meets step SparesLast fresh calls) :
    (∃ d answers, run step fresh calls = some (d, answers) ∧ d.IndependentCells calls) ∧
      ∀ id, PageInRange id → HasOwnPlace id := by
  refine ⟨?_, fun id => hasOwnPlace⟩
  have hzero : ∀ q, PageInRange q →
      (fresh.file.page (physicalPage q.toInt.toNat)).bytes 0 pageSize =
        List.replicate pageSize 0 := by
    refine fun q _ => List.eq_replicate_iff.mpr ⟨Mem.length_bytes, fun b hb => ?_⟩
    obtain ⟨a, -, rfl⟩ := List.mem_map.mp hb
    rfl
  obtain ⟨d, answers, hrun, hs, hcells⟩ := small_fresh.cells hm hzero
  refine ⟨d, answers, hrun, fun q hq => ⟨_, hs.readPage_eq hq, hcells q hq⟩,
    fun id pageData d' hid heq => ?_⟩
  obtain ⟨d'', heq', hmeta, hfile⟩ := writePage_eq (d := d) hid pageData
  cases heq.symm.trans heq'
  refine ⟨hmeta, fun a ha => ?_⟩
  rw [hfile]
  exact ⟨(page_put ha).trans (if_neg (physicalPage_ne _ 0).1.symm),
    fun i => (page_put ha).trans (if_neg (physicalPage_ne _ i).2.symm)⟩

/-- A write and a release of the page. -/
theorem cells_of_sparesLast_write : (∃ d answers, run step fresh
    [.writePage 5 (fun _ => 1), .deAllocatePage 5] = some (d, answers) ∧
      d.IndependentCells [.writePage 5 (fun _ => 1), .deAllocatePage 5]) ∧
      ∀ id, PageInRange id → HasOwnPlace id :=
  cells_of_sparesLast ⟨⟨(by decide : PageInRange 5), (by decide : physicalPage 5 ≠ 2 ^ 19 - 1)⟩,
    fun _ _ _ => ⟨trivial, fun _ _ _ => trivial⟩⟩

/-- **What was written is not read** at the last page below the offset
`2 ^ 31`. -/
theorem not_cells : ¬ ∀ calls, Meets step InRange fresh calls →
    ∃ d answers, run step fresh calls = some (d, answers) ∧ d.IndependentCells calls := by
  intro h
  obtain ⟨d, answers, hrun, hcells, -⟩ := h [.writePage 524269 (fun _ => 1)]
    ⟨(by decide : PageInRange 524269), fun _ _ _ => trivial⟩
  have hread : ((run step fresh [.writePage 524269 (fun _ => 1)]).map (fun r =>
      (r.1.readPage 524269).map (fun page => page 0))) = some (some 0) := by decide +kernel
  rw [hrun, Option.map_some, Option.some_inj] at hread
  obtain ⟨page, hpage, hbytes⟩ := hcells 524269 (by decide)
  rw [hpage, Option.map_some, Option.some_inj] at hread
  rw [lastWritten, if_pos rfl, lastWritten] at hbytes
  have hfirst := Mem.eq_of_bytes_eq hbytes (by decide : 0 < pageSize)
  rw [Nat.zero_add, hread] at hfirst
  exact absurd hfirst (by decide)

end MiniSql.DiskManager
