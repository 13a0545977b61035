import MiniSql.DiskAllocation
import Mathlib.Algebra.BigOperators.Group.Finset.Basic
import Mathlib.Algebra.Order.BigOperators.Group.Finset

/-!
# Page reclamation and the counters

`DeAllocatePage` clears a bit in a bitmap that it has read, and does not write
the bitmap back. So a page that is released stays allocated on disk, and every
release of it is counted. As long as no allocated page is released, the counters
of the meta page are those of the bitmaps (`counted_of_releasesFree`).
-/

namespace MiniSql.DiskManager

open Bytes DiskFile Machine

variable {d d' : DiskManager} {i j k n o : ℕ} {m m' : Mem} {id : Int32}

/-! ## Counters -/

/-- The counters are those of the bitmaps on disk. -/
def Counted (d : DiskManager) : Prop :=
  (∀ i < d.numExtents, d.extentUsedPage i = (d.bitmap i).used) ∧
    d.numAllocatedPages = ∑ i ∈ Finset.range d.numExtents, d.extentUsedPage i

/-- A page that is released is free, and the counters are those of the
bitmaps. -/
def ReclaimsAndCounts (d : DiskManager) : Prop :=
  d.Counted ∧ ∀ id d', d.isPageFree id = some false → d.deAllocatePage id = some d' →
    d'.isPageFree id = some true

/-- The calls of `AllocatePage` and `DeAllocatePage`. -/
def Allocates : DiskCall → Prop
  | .allocatePage => True
  | .deAllocatePage _ => True
  | _ => False

/-- A page is released only if it is free, and a page is allocated only while
there are less than eighteen extents. -/
def ReleasesFree (d : DiskManager) : DiskCall → Prop
  | .allocatePage => d.numExtents < 18
  | .deAllocatePage id => d.isPageFree id = some true
  | _ => False

/-! ## The bitmaps after a step -/

theorem used_put_self {f : DiskFile} {p : BitmapPage} :
    (bitmap ⟨f.put (bitmapPage i) p, m⟩ i).used = p.used :=
  BitmapPage.used_congr (fun _ ho => (isAllocated_put ho).trans (if_pos rfl))

theorem used_put_ne {f : DiskFile} {p : Mem} (hk : bitmapPage i ≠ k) :
    (bitmap ⟨f.put k p, m⟩ i).used = BitmapPage.used (f.page (bitmapPage i)) :=
  BitmapPage.used_congr (fun _ ho => (isAllocated_put ho).trans (if_neg hk))

/-- One number of a sum goes up by one. -/
theorem sum_add_one {s : Finset ℕ} {f g : ℕ → ℕ} (hj : j ∈ s) (hself : g j = f j + 1)
    (hothers : ∀ i ≠ j, g i = f i) : ∑ i ∈ s, g i = ∑ i ∈ s, f i + 1 := by
  have herase : ∑ i ∈ s.erase j, g i = ∑ i ∈ s.erase j, f i :=
    Finset.sum_congr rfl (fun i hi => hothers i (Finset.ne_of_mem_erase hi))
  rw [← Finset.add_sum_erase s g hj, ← Finset.add_sum_erase s f hj, hself, herase]
  omega

/-- The counters are those of the bitmaps, and those that are not in use are
zero. -/
structure Exact (d : DiskManager) : Prop where
  counted : d.Counted
  zero : ∀ i, d.numExtents ≤ i → d.extentUsedPage i = 0
  size : d.Small ∨ d.Overgrown

theorem exact_fresh : fresh.Exact where
  counted := ⟨fun _ hi => absurd hi (Nat.not_lt_zero _), rfl⟩
  zero _ _ := rfl
  size := .inl small_fresh

theorem Exact.numExtents_le (h : d.Exact) : d.numExtents ≤ 18 :=
  h.size.elim (fun hs => hs.extents.trans (by omega)) (fun ho => ho.extents.le)

/-- The sum of the counters is small. -/
theorem Exact.sum_le (h : d.Exact) : d.numAllocatedPages ≤ 18 * bitmapSize := by
  rw [h.counted.2]
  refine (Finset.sum_le_card_nsmul _ _ bitmapSize (fun i hi => ?_)).trans ?_
  · rw [h.counted.1 i (Finset.mem_range.mp hi)]
    exact BitmapPage.used_le _
  · rw [Finset.card_range]
    exact Nat.mul_le_mul_right _ h.numExtents_le

/-- **A page in an extent that is there** is counted once. -/
theorem Exact.allocate (h : d.Exact) (hj : j < d.numExtents) {p : BitmapPage}
    (hpage : (d.bitmap j).allocatePage = some (o, p)) (hcount : Counts d.metaData m' j 1) :
    let d' : DiskManager := ⟨d.file.put (bitmapPage j) p, m'⟩
    d'.Counted ∧ ∀ i, d'.numExtents ≤ i → d'.extentUsedPage i = 0 := by
  intro d'
  have hext : d'.numExtents = d.numExtents := hcount.extents
  have hothers : ∀ i ≠ j, d'.extentUsedPage i = d.extentUsedPage i := hcount.others
  have hself : d'.extentUsedPage j = d.extentUsedPage j + 1 := by
    have hmod : d'.extentUsedPage j = (d.extentUsedPage j + 1) % 2 ^ 32 := hcount.used
    have hle : (d.bitmap j).used ≤ 32704 := BitmapPage.used_le _
    have hused := h.counted.1 j hj
    omega
  refine ⟨⟨fun i hi => ?_, ?_⟩, fun i hi => ?_⟩
  · by_cases hij : i = j
    · rw [hij, hself, used_put_self, BitmapPage.used_allocatePage hpage, h.counted.1 j hj]
    · rw [hothers i hij, used_put_ne (fun hc => hij (bitmapPage_inj.mp hc))]
      exact h.counted.1 i (hext ▸ hi)
  · have hsum : d.numAllocatedPages ≤ 18 * 32704 := h.sum_le
    have hmod : d'.numAllocatedPages = (d.numAllocatedPages + 1) % 2 ^ 32 := hcount.allocated
    rw [hext, sum_add_one (Finset.mem_range.mpr hj) hself hothers, ← h.counted.2, hmod]
    omega
  · have hge : d.numExtents ≤ i := hext ▸ hi
    rw [hothers i (by omega), h.zero i hge]

/-- **A new extent** has one page that is counted. -/
theorem Exact.newExtent (h : d.Exact) (hn : d.numExtents ≤ 17) {p : BitmapPage}
    (hpage : BitmapPage.allocatePage (fun _ => 0) = some (o, p))
    (hcount : Counts (d.metaData.write32 4 (d.numExtents + 1)) m' d.numExtents 1) :
    let d' : DiskManager := ⟨(d.file.put (bitmapPage d.numExtents) p).put 0 m', m'⟩
    d'.Counted ∧ ∀ i, d'.numExtents ≤ i → d'.extentUsedPage i = 0 := by
  intro d'
  have hext : d'.numExtents = d.numExtents + 1 := by
    refine hcount.extents.trans (Mem.read32_write32 _ |>.trans ?_)
    omega
  have hkeep : ∀ i, (d.metaData.write32 4 (d.numExtents + 1)).read32 (8 + 4 * i) =
      d.extentUsedPage i := fun i => Mem.read32_write32_of_disjoint (by omega)
  have hothers : ∀ i ≠ d.numExtents, d'.extentUsedPage i = d.extentUsedPage i := fun i hi =>
    (hcount.others i hi).trans (hkeep i)
  have hself : d'.extentUsedPage d.numExtents = 1 := by
    refine hcount.used.trans ?_
    rw [hkeep, h.zero _ le_rfl]
    rfl
  have hbitmap : ∀ i, (d'.bitmap i).used =
      (bitmap ⟨d.file.put (bitmapPage d.numExtents) p, m'⟩ i).used := fun i =>
    used_put_ne (bitmapPage_ne_zero i)
  refine ⟨⟨fun i hi => ?_, ?_⟩, fun i hi => ?_⟩
  · rw [hbitmap]
    by_cases hin : i = d.numExtents
    · rw [hin, hself, used_put_self, BitmapPage.used_allocatePage hpage, BitmapPage.used_zero]
    · rw [hothers i hin, used_put_ne (fun hc => hin (bitmapPage_inj.mp hc))]
      exact h.counted.1 i (by omega)
  · have hsum : d.numAllocatedPages ≤ 18 * 32704 := h.sum_le
    have hmod : d'.numAllocatedPages = (d.numAllocatedPages + 1) % 2 ^ 32 := by
      refine hcount.allocated.trans ?_
      rw [Mem.read32_write32_of_disjoint (by omega)]
      rfl
    have hold : ∑ i ∈ Finset.range d.numExtents, d'.extentUsedPage i =
        ∑ i ∈ Finset.range d.numExtents, d.extentUsedPage i :=
      Finset.sum_congr rfl (fun i hi => hothers i (Finset.mem_range.mp hi).ne)
    rw [hext, Finset.sum_range_succ, hold, hself, ← h.counted.2, hmod]
    omega
  · rw [hothers i (by omega), h.zero i (by omega)]

/-- A release that is not counted changes nothing. -/
theorem Exact.release (h : d.Exact) :
    let d' : DiskManager := ⟨d.file.put 0 d.metaData, d.metaData⟩
    d'.Counted ∧ ∀ i, d'.numExtents ≤ i → d'.extentUsedPage i = 0 :=
  ⟨⟨fun i hi => (h.counted.1 i hi).trans (used_put_ne (bitmapPage_ne_zero i)).symm, h.counted.2⟩,
    h.zero⟩

/-- After an allocation the file is small, or it has just become too large. -/
theorem size_allocatePage (h : d.Small) {page : PageId}
    (heq : d.allocatePage = some (page, d')) : d'.Small ∨ d'.Overgrown := by
  by_cases hroom : d.numExtents < 17 ∨ d.FindsFree
  · exact .inl (h.allocatePage heq hroom)
  · exact .inr (h.overgrown_allocatePage heq hroom)

/-- After a release that is not counted the size is as before. -/
theorem size_release (h : d.Small ∨ d.Overgrown) :
    Small ⟨d.file.put 0 d.metaData, d.metaData⟩ ∨ Overgrown ⟨d.file.put 0 d.metaData, d.metaData⟩ :=
  h.imp (fun hs => small_put hs.fits (by decide) hs.extents)
    (fun ho => ho.put (by decide) rfl)

/-- **Every call keeps the counters**, where only free pages are released. -/
theorem Exact.step (h : d.Exact) {c : DiskCall} {answer : DiskAnswer} (hc : d.ReleasesFree c)
    (hstep : d.step c = some (d', answer)) : d'.Exact := by
  cases c with
  | allocatePage =>
    obtain ⟨⟨page, d''⟩, heq, hans⟩ := Option.map_eq_some_iff.mp hstep
    cases hans
    have hs : d.Small := h.size.resolve_right (fun ho => absurd ho.extents hc.ne)
    have hsize := size_allocatePage hs heq
    rcases allocatePage_cases hs with
      ⟨j, o, p, m', hj, hpage, hcount, heq'⟩ | ⟨-, o, p, m', hpage, hcount, heq'⟩
    · rw [heq] at heq'
      cases heq'
      obtain ⟨hcounted, hzero⟩ := h.allocate hj hpage (counts_of_count hcount)
      exact ⟨hcounted, hzero, hsize⟩
    · rw [heq] at heq'
      cases heq'
      obtain ⟨hcounted, hzero⟩ := h.newExtent hs.extents hpage (counts_of_count hcount)
      exact ⟨hcounted, hzero, hsize⟩
  | deAllocatePage id =>
    obtain ⟨d'', heq, hans⟩ := Option.map_eq_some_iff.mp hstep
    cases hans
    have hsame : d' = ⟨d.file.put 0 d.metaData, d.metaData⟩ := by
      rcases h.size with hs | ho
      · rcases deAllocatePage_cases hs id with ⟨halloc, -⟩ | ⟨-, heq'⟩
        · rcases isPageFree_eq hs id with ⟨hfalse, -⟩ | ⟨-, hnot⟩
          · exact absurd (hfalse.symm.trans hc) (by decide)
          · exact absurd halloc hnot
        · exact Option.some_inj.mp (heq.symm.trans heq')
      · exact ho.deAllocatePage_eq heq
    rw [hsame]
    exact ⟨h.release.1, h.release.2, size_release h.size⟩
  | readPage id => exact hc.elim
  | writePage id pageData => exact hc.elim

/-- A release of an allocated page leaves it allocated, and the counters are then
those of the bitmaps no longer. -/
theorem Exact.not_reclaimed (h : d.Exact) (hfree : d.isPageFree id = some false)
    (heq : d.deAllocatePage id = some d') :
    d'.isPageFree id = some false ∧ ¬ d'.Counted := by
  have hs : d.Small := h.size.resolve_right (fun ho => ho.isPageFree_ne hfree)
  have halloc : d.IsAllocated id := by
    rcases isPageFree_eq hs id with ⟨-, halloc⟩ | ⟨htrue, -⟩
    · exact halloc
    · exact absurd (hfree.symm.trans htrue) (by decide)
  rcases deAllocatePage_cases hs id with ⟨-, m', hcount, heq'⟩ | ⟨hnot, -⟩
  · rw [heq] at heq'
    cases heq'
    have hcount := counts_of_count hcount
    have hext : (⟨d.file.put 0 m', m'⟩ : DiskManager).numExtents = d.numExtents := hcount.extents
    refine ⟨?_, fun hcounted => ?_⟩
    · have hs' : Small ⟨d.file.put 0 m', m'⟩ :=
        small_put hs.fits (by decide) (hcount.extents.trans_le hs.extents)
      rcases isPageFree_eq hs' id with ⟨hfalse, -⟩ | ⟨-, hnot⟩
      · exact hfalse
      · refine absurd ⟨hext ▸ halloc.1, ?_⟩ hnot
        rw [isAllocated_put (Nat.mod_lt _ (by decide)), if_neg (bitmapPage_ne_zero _)]
        exact halloc.2
    · have hnew := hcounted.1 _ (hext ▸ halloc.1)
      rw [used_put_ne (bitmapPage_ne_zero _)] at hnew
      have hold := h.counted.1 _ halloc.1
      have hused := hcount.used
      have hle : (d.bitmap (bitmapIndex id)).used ≤ 32704 := BitmapPage.used_le _
      change m'.read32 _ = (d.bitmap (bitmapIndex id)).used at hnew
      change m'.read32 _ = (d.extentUsedPage _ + (2 ^ 32 - 1)) % 2 ^ 32 at hused
      omega
  · exact absurd halloc hnot

/-- **The counters are those of the bitmaps** in every state that is reached by
allocations and by releases of free pages. A release of an allocated page in
such a state is no reclamation, and the counters are wrong after it. -/
theorem counted_of_releasesFree (h : Reaches step ReleasesFree fresh d) : d.Counted ∧
    ∀ id d', d.isPageFree id = some false → d.deAllocatePage id = some d' →
      d'.isPageFree id = some false ∧ ¬ d'.Counted := by
  have hexact := h.invariant exact_fresh (fun _ _ _ _ hd hc hstep => Exact.step hd hc hstep)
  exact ⟨hexact.counted, fun _ _ => hexact.not_reclaimed⟩

/-- After an allocation and the release of a free page, the counters are right; a release of the
allocated page would not free it. -/
theorem counted_of_releasesFree_one : ∃ d, run step fresh [.allocatePage, .deAllocatePage 7] =
    some (d, [.allocated 0, .done]) ∧ d.Counted ∧ ∃ d', d.deAllocatePage 0 = some d' ∧
      d'.isPageFree 0 = some false := by
  have hrun : ((run step fresh [.allocatePage, .deAllocatePage 7]).map (fun r =>
      (r.2, r.1.isPageFree 0, (r.1.deAllocatePage 0).isSome))) =
      some ([.allocated 0, .done], some false, true) := by decide +kernel
  obtain ⟨⟨d, answers⟩, hd, hout⟩ := Option.map_eq_some_iff.mp hrun
  simp only [Prod.mk.injEq] at hout
  obtain ⟨rfl, hused, hrelease⟩ := hout
  have hfree : (step fresh .allocatePage).map (fun r => r.1.isPageFree 7) =
      some (some true) := by decide +kernel
  have hmeets : Meets step ReleasesFree fresh [.allocatePage, .deAllocatePage 7] := by
    refine ⟨(by decide : fresh.numExtents < 18), fun d₁ o h₁ => ⟨?_, fun _ _ _ => trivial⟩⟩
    rw [h₁, Option.map_some, Option.some_inj] at hfree
    exact hfree
  obtain ⟨hcounted, hnot⟩ := counted_of_releasesFree (Reaches.init.run hmeets hd)
  obtain ⟨d', hd'⟩ := Option.isSome_iff_exists.mp hrelease
  exact ⟨d, hd, hcounted, d', hd', (hnot 0 d' hused hd').1⟩

/-- **A release is not a reclamation**: the page that was allocated and released
is not free. -/
theorem not_reclaimsAndCounts : ¬ ∀ d,
    Reaches step (fun _ c => Allocates c) fresh d → d.ReclaimsAndCounts := by
  intro h
  have hrun : ((run step fresh [.allocatePage]).map (fun r => (r.1.isPageFree 0,
      (r.1.deAllocatePage 0).map (fun d => d.isPageFree 0)))) =
      some (some false, some (some false)) := by decide +kernel
  obtain ⟨⟨d, answers⟩, hd, hpages⟩ := Option.map_eq_some_iff.mp hrun
  obtain ⟨hfree, hrelease⟩ := Prod.mk.inj hpages
  obtain ⟨d', hd', hfree'⟩ := Option.map_eq_some_iff.mp hrelease
  have hmeets : Meets step (fun _ c => Allocates c) fresh [.allocatePage] :=
    ⟨trivial, fun _ _ _ => trivial⟩
  have hreach := Reaches.init.run hmeets hd
  exact absurd ((h d hreach).2 0 d' hfree hd') (by rw [hfree']; decide)

end MiniSql.DiskManager
