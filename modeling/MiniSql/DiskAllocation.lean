import MiniSql.DiskLayout

/-!
# What one allocation and one release do

`AllocatePage` sets a bit in the first extent that has a free page, or it
makes a new extent (`allocatePage_cases`). `DeAllocatePage` counts a page that
is allocated as released and leaves the bitmaps as they are
(`deAllocatePage_cases`). Both are said of files that are smaller than
`2 ^ 31` bytes; the eighteenth extent makes the file larger, and then nothing is
read any more (`Overgrown`).
-/

namespace MiniSql.DiskManager

open Bytes DiskFile

variable {d d' : DiskManager} {i j k n o : ℕ} {m m' : Mem} {id : Int32}

/-- The bitmap of an extent, as stored on disk. -/
def bitmap (d : DiskManager) (i : ℕ) : BitmapPage := d.file.page (bitmapPage i)

/-- The page of an extent with a given offset. -/
def logicalPage (i o : ℕ) : PageId := ((o + i * bitmapSize : ℕ) : ℤ)

/-! ## Counters -/

/-- The two counters are changed by a number, and nothing else. -/
structure Counts (m m' : Mem) (i n : ℕ) : Prop where
  allocated : m'.read32 0 = (m.read32 0 + n) % 2 ^ 32
  extents : m'.read32 4 = m.read32 4
  used : m'.read32 (8 + 4 * i) = (m.read32 (8 + 4 * i) + n) % 2 ^ 32
  others : ∀ j ≠ i, m'.read32 (8 + 4 * j) = m.read32 (8 + 4 * j)

theorem counts_of_count (h : count m i n = some m') : Counts m m' i n := by
  unfold count at h
  split at h
  · cases h
    refine ⟨?_, ?_, Mem.read32_write32 _, fun j hj => ?_⟩
    · rw [Mem.read32_write32_of_disjoint (by omega), Mem.read32_write32]
    · rw [Mem.read32_write32_of_disjoint (by omega), Mem.read32_write32_of_disjoint (by omega)]
    · rw [Mem.read32_write32_of_disjoint (by omega), Mem.read32_write32_of_disjoint (by omega)]
  · cases h

theorem exists_count (hi : i ≤ 17) (m : Mem) (n : ℕ) : ∃ m', count m i n = some m' :=
  ⟨_, if_pos (by rw [maxExtents, pageSize]; omega)⟩

/-! ## Small files -/

/-- The file is smaller than `2 ^ 31` bytes, and so are its bitmaps. -/
structure Small (d : DiskManager) : Prop where
  fits : d.file.Fits
  extents : d.numExtents ≤ 17

theorem readBitmap_eq (h : d.file.Fits) (hi : i ≤ 16) :
    d.file.readPhysicalPage (bitmapPageId i) = some (d.bitmap i) := by
  rw [bitmapPageId_eq (by omega)]
  exact readPhysicalPage_eq h (by rw [bitmapPage, bitmapSize_eq, pageSize]; omega)

/-- The loop over the extents: the first one with a free page, if any. -/
theorem allocateLoop_cases (h : d.file.Fits) (n : ℕ) (hn : i + n ≤ 17) :
    (d.allocateLoop n i = some none ∧
        ∀ j, i ≤ j → j < i + n → (d.bitmap j).allocatePage = none) ∨
      ∃ j o p m', i ≤ j ∧ j < i + n ∧ (d.bitmap j).allocatePage = some (o, p) ∧
        count d.metaData j 1 = some m' ∧ d.allocateLoop n i =
          some (some (logicalPage j o, ⟨d.file.put (bitmapPage j) p, m'⟩)) := by
  induction n generalizing i with
  | zero => exact .inl ⟨rfl, fun j hle hlt => absurd hlt (by omega)⟩
  | succ n ih =>
    unfold allocateLoop
    rw [readBitmap_eq h (by omega), Option.bind_eq_bind, Option.bind_some]
    cases hpage : (d.bitmap i).allocatePage with
    | some r =>
      obtain ⟨o, p⟩ := r
      obtain ⟨ho, -⟩ := BitmapPage.allocatePage_eq_some hpage
      obtain ⟨m', hcount⟩ := exists_count (by omega : i ≤ 17) d.metaData 1
      refine .inr ⟨i, o, p, m', le_rfl, by omega, hpage, hcount, ?_⟩
      have hid : toInt32 (o + i * bitmapSize) = logicalPage i o := by
        refine toInt32_of_lt ?_
        have hsize : o < 32704 := ho
        rw [bitmapSize_eq]
        omega
      show (count d.metaData i 1).bind _ = _
      rw [hcount, Option.bind_some, bitmapPageId_eq (by omega), writePhysicalPage_eq, hid]
      rfl
    | none =>
      rcases ih (i := i + 1) (by omega) with ⟨hloop, hfull⟩ | ⟨j, o, p, m', hle, hlt, hrest⟩
      · refine .inl ⟨hloop, fun j hle hlt => ?_⟩
        rcases Nat.eq_or_lt_of_le hle with rfl | hlt'
        · exact hpage
        · exact hfull j hlt' (by omega)
      · exact .inr ⟨j, o, p, m', by omega, by omega, hrest⟩

/-- A page of zeroes has a free page. -/
theorem exists_allocatePage_zero : ∃ o p, BitmapPage.allocatePage (fun _ => 0) = some (o, p) := by
  cases h : BitmapPage.allocatePage (fun _ => 0) with
  | some r => exact ⟨r.1, r.2, rfl⟩
  | none =>
    have hset := BitmapPage.allocatePage_eq_none h (o := 0) (by decide)
    rw [BitmapPage.isAllocated_zero] at hset
    exact absurd hset Bool.false_ne_true

/-- **What `AllocatePage` does**: it takes the first free page of the extents
that there are, and where all are full, the first page of a new extent; only
then is the meta page written. -/
theorem allocatePage_cases (h : d.Small) :
    (∃ j o p m', j < d.numExtents ∧ (d.bitmap j).allocatePage = some (o, p) ∧
        count d.metaData j 1 = some m' ∧ d.allocatePage =
          some (logicalPage j o, ⟨d.file.put (bitmapPage j) p, m'⟩)) ∨
      (∀ j < d.numExtents, (d.bitmap j).allocatePage = none) ∧
        ∃ o p m', BitmapPage.allocatePage (fun _ => 0) = some (o, p) ∧
          count (d.metaData.write32 4 (d.numExtents + 1)) d.numExtents 1 = some m' ∧
          d.allocatePage = some (logicalPage d.numExtents o,
            ⟨(d.file.put (bitmapPage d.numExtents) p).put 0 m', m'⟩) := by
  have hn := h.extents
  rcases allocateLoop_cases h.fits (i := 0) d.numExtents (by omega) with
    ⟨hloop, hfull⟩ | ⟨j, o, p, m', -, hlt, hpage, hcount, hloop⟩
  · refine .inr ⟨fun j hj => hfull j (Nat.zero_le j) (by omega), ?_⟩
    obtain ⟨o, p, hpage⟩ := exists_allocatePage_zero
    obtain ⟨ho, -⟩ := BitmapPage.allocatePage_eq_some hpage
    obtain ⟨m', hcount⟩ := exists_count hn (d.metaData.write32 4 (d.numExtents + 1)) 1
    refine ⟨o, p, m', hpage, hcount, ?_⟩
    have hlast : ((d.metaData.write32 4 (d.numExtents + 1)).read32 4 + (2 ^ 32 - 1)) % 2 ^ 32 =
        d.numExtents := by
      rw [Mem.read32_write32]
      omega
    have hid : toInt32 (o + d.numExtents * bitmapSize) = logicalPage d.numExtents o := by
      refine toInt32_of_lt ?_
      have hsize : o < 32704 := ho
      rw [bitmapSize_eq]
      omega
    unfold allocatePage
    rw [hloop, Option.bind_eq_bind, Option.bind_some]
    simp only [hpage, hlast, hcount, Option.bind_eq_bind, Option.bind_some,
      bitmapPageId_eq hn, writePhysicalPage_eq, hid]
    rfl
  · refine .inl ⟨j, o, p, m', by omega, hpage, hcount, ?_⟩
    unfold allocatePage
    rw [hloop]
    rfl

/-- The page is allocated, by the bitmaps on disk. -/
def IsAllocated (d : DiskManager) (id : Int32) : Prop :=
  bitmapIndex id < d.numExtents ∧
    (d.bitmap (bitmapIndex id)).isAllocated (toSize id % bitmapSize) = true

/-- `IsPageFree` tells what the bitmaps on disk say. -/
theorem isPageFree_eq (h : d.Small) (id : Int32) :
    (d.isPageFree id = some false ∧ d.IsAllocated id) ∨
      (d.isPageFree id = some true ∧ ¬ d.IsAllocated id) := by
  have hmod : toSize id % bitmapSize < BitmapPage.maxSupportedSize := Nat.mod_lt _ (by decide)
  have hn := h.extents
  unfold isPageFree
  by_cases hi : bitmapIndex id < d.numExtents
  · rw [if_pos hi, readBitmap_eq h.fits (by omega), Option.map_some, BitmapPage.isPageFree_eq hmod]
    cases hbit : (d.bitmap (bitmapIndex id)).isAllocated (toSize id % bitmapSize) with
    | true => exact .inl ⟨rfl, hi, hbit⟩
    | false => exact .inr ⟨rfl, fun hc => Bool.false_ne_true (hbit.symm.trans hc.2)⟩
  · rw [if_neg hi]
    exact .inr ⟨rfl, fun hc => hi hc.1⟩

/-- **What `DeAllocatePage` does**: it counts an allocated page as released, and
it writes the meta page. No bitmap is written. -/
theorem deAllocatePage_cases (h : d.Small) (id : Int32) :
    (d.IsAllocated id ∧ ∃ m', count d.metaData (bitmapIndex id) (2 ^ 32 - 1) = some m' ∧
        d.deAllocatePage id = some ⟨d.file.put 0 m', m'⟩) ∨
      (¬ d.IsAllocated id ∧ d.deAllocatePage id = some ⟨d.file.put 0 d.metaData, d.metaData⟩) := by
  have hmod : toSize id % bitmapSize < BitmapPage.maxSupportedSize := Nat.mod_lt _ (by decide)
  have hn := h.extents
  unfold deAllocatePage
  by_cases hi : bitmapIndex id < d.numExtents
  · rw [if_pos hi, readBitmap_eq h.fits (by omega)]
    have hsome := BitmapPage.isSome_deAllocatePage (p := d.bitmap (bitmapIndex id)) hmod
    cases hrelease : (d.bitmap (bitmapIndex id)).deAllocatePage (toSize id % bitmapSize) with
    | some p =>
      obtain ⟨m', hcount⟩ := exists_count (by omega : bitmapIndex id ≤ 17) d.metaData (2 ^ 32 - 1)
      rw [hrelease] at hsome
      refine .inl ⟨⟨hi, hsome.symm⟩, m', hcount, ?_⟩
      simp only [Option.bind_eq_bind, Option.bind_some, hrelease, hcount]
      rfl
    | none =>
      rw [hrelease] at hsome
      refine .inr ⟨fun hc => Bool.false_ne_true (hsome.trans hc.2), ?_⟩
      simp only [Option.bind_eq_bind, Option.bind_some, hrelease]
      rfl
  · rw [if_neg hi]
    exact .inr ⟨fun hc => hi hc.1, rfl⟩

/-! ## What the steps keep -/

/-- The bitmaps are those of the file. -/
theorem isAllocated_put (ho : o < bitmapSize) {f : DiskFile} {p : Mem} :
    (bitmap ⟨f.put k p, m⟩ i).isAllocated o =
      if bitmapPage i = k then BitmapPage.isAllocated p o
      else BitmapPage.isAllocated (f.page (bitmapPage i)) o := by
  by_cases hk : bitmapPage i = k
  · rw [if_pos hk]
    exact BitmapPage.isAllocated_congr (fun a ha => (page_put ha).trans (if_pos hk)) ho
  · rw [if_neg hk]
    exact BitmapPage.isAllocated_congr (fun a ha => (page_put ha).trans (if_neg hk)) ho

theorem bitmapPage_ne_zero (i : ℕ) : bitmapPage i ≠ 0 := Nat.succ_ne_zero _

theorem bitmapPage_inj : bitmapPage i = bitmapPage j ↔ i = j := by
  rw [bitmapPage, bitmapPage, bitmapSize_eq]
  omega

theorem logicalPage_inj {o' : ℕ} (ho : o < bitmapSize) (ho' : o' < bitmapSize) :
    logicalPage i o = logicalPage j o' ↔ i = j ∧ o = o' := by
  rw [logicalPage, logicalPage, Int.natCast_inj]
  rw [bitmapSize_eq] at ho ho' ⊢
  omega

/-- The pages of the extents that there are. -/
theorem logicalPage_lt (hi : i < n) (ho : o < bitmapSize) :
    0 ≤ logicalPage i o ∧ logicalPage i o < (n * bitmapSize : ℕ) := by
  rw [logicalPage, Int.ofNat_lt, bitmapSize_eq]
  rw [bitmapSize_eq] at ho
  exact ⟨Int.natCast_nonneg _, by omega⟩

theorem small_fresh : fresh.Small := ⟨fits_empty, Nat.zero_le _⟩

/-- A page of an extent is written, or the meta page. -/
theorem small_put {f : DiskFile} (hf : f.Fits) (hk : k < 2 ^ 19 - 1) {p : Mem}
    (hm : m.read32 4 ≤ 17) : Small ⟨f.put k p, m⟩ :=
  ⟨hf.put (by rw [pageSize]; omega), hm⟩

theorem bitmapPage_lt (hi : i ≤ 16) : bitmapPage i < 2 ^ 19 - 1 := by
  rw [bitmapPage, bitmapSize_eq]
  omega

/-- An extent that is there has a free page. -/
def FindsFree (d : DiskManager) : Prop := ∃ j < d.numExtents, (d.bitmap j).allocatePage ≠ none

/-- Where there is a free page, or less than seventeen extents, an allocation
keeps the file small. -/
theorem Small.allocatePage (h : d.Small) {id : PageId} (heq : d.allocatePage = some (id, d'))
    (hroom : d.numExtents < 17 ∨ d.FindsFree) : d'.Small := by
  have hn := h.extents
  rcases allocatePage_cases h with
    ⟨j, o, p, m', hj, -, hcount, heq'⟩ | ⟨hfull, o, p, m', -, hcount, heq'⟩
  · rw [heq] at heq'
    cases heq'
    exact small_put h.fits (bitmapPage_lt (by omega)) ((counts_of_count hcount).extents ▸ hn)
  · rw [heq] at heq'
    cases heq'
    have hlt : d.numExtents < 17 :=
      hroom.resolve_right (fun ⟨j, hj, hne⟩ => hne (hfull j hj))
    have hfits : (d.file.put (bitmapPage d.numExtents) p).Fits :=
      h.fits.put (by
        have hlt' := bitmapPage_lt (i := d.numExtents) (by omega)
        rw [pageSize]
        omega)
    refine small_put hfits (by decide) ?_
    rw [(counts_of_count hcount).extents, Mem.read32_write32]
    omega

/-! ## The eighteenth extent -/

/-- The file is too large for its size to be an `int`. -/
structure Overgrown (d : DiskManager) : Prop where
  large : 2 ^ 31 ≤ d.file.size
  lt : d.file.size < 2 ^ 32
  extents : d.numExtents = 18

/-- The eighteenth extent makes the file overgrown. -/
theorem overgrown_put {f : DiskFile} (hf : f.Fits) {p q : Mem} (hm : m.read32 4 = 18) :
    Overgrown ⟨(f.put (bitmapPage 17) p).put 0 q, m⟩ where
  large := le_max_of_le_left (le_max_of_le_right (by decide))
  lt := max_lt (max_lt (hf.size.trans (by decide)) (by decide)) (by decide)
  extents := hm

/-- Otherwise an allocation makes the file overgrown. -/
theorem Small.overgrown_allocatePage (h : d.Small) {page : PageId}
    (heq : d.allocatePage = some (page, d')) (hroom : ¬ (d.numExtents < 17 ∨ d.FindsFree)) :
    d'.Overgrown := by
  rcases allocatePage_cases h with
    ⟨j, o, p, m', hj, hpage, -, -⟩ | ⟨-, o, p, m', -, hcount, heq'⟩
  · exact absurd (.inr ⟨j, hj, by rw [hpage]; exact Option.some_ne_none _⟩) hroom
  · have hn : d.numExtents = 17 := by
      have hle := h.extents
      have hge := not_or.mp hroom
      omega
    rw [heq, hn] at heq'
    cases heq'
    refine overgrown_put h.fits ?_
    rw [(counts_of_count hcount).extents, Mem.read32_write32, hn]
    rfl

/-- A release keeps the file small, and writes the meta page. -/
theorem Small.deAllocatePage (h : d.Small) (heq : d.deAllocatePage id = some d') :
    d'.Small ∧ ∃ m', d' = ⟨d.file.put 0 m', m'⟩ := by
  rcases deAllocatePage_cases h id with ⟨-, m', hcount, heq'⟩ | ⟨-, heq'⟩
  · rw [heq] at heq'
    cases heq'
    exact ⟨small_put h.fits (by decide) ((counts_of_count hcount).extents.trans_le h.extents),
      m', rfl⟩
  · rw [heq] at heq'
    cases heq'
    exact ⟨small_put h.fits (by decide) h.extents, d.metaData, rfl⟩

/-- Writing inside the file does not change its size. -/
theorem Overgrown.put (h : d.Overgrown) (hk : k < 2 ^ 19 - 1) {p : Mem}
    (hm : m.read32 4 = d.numExtents) : Overgrown ⟨d.file.put k p, m⟩ := by
  have hsize : (d.file.put k p).size = d.file.size := by
    refine max_eq_left (le_trans ?_ h.large)
    rw [pageSize]
    omega
  exact ⟨hsize ▸ h.large, hsize ▸ h.lt, hm.trans h.extents⟩

/-- An allocation in an overgrown file takes a page of the first extent,
whichever pages are allocated there. -/
theorem Overgrown.allocatePage_eq (h : d.Overgrown) : ∃ o p m',
    BitmapPage.allocatePage (fun _ => 0) = some (o, p) ∧ count d.metaData 0 1 = some m' ∧
      d.allocatePage = some (logicalPage 0 o, ⟨d.file.put (bitmapPage 0) p, m'⟩) := by
  obtain ⟨o, p, hpage⟩ := exists_allocatePage_zero
  obtain ⟨ho, -⟩ := BitmapPage.allocatePage_eq_some hpage
  obtain ⟨m', hcount⟩ := exists_count (by omega : 0 ≤ 17) d.metaData 1
  refine ⟨o, p, m', hpage, hcount, ?_⟩
  have hread : d.file.readPhysicalPage (bitmapPageId 0) = some (fun _ => 0) := by
    rw [bitmapPageId_eq (by omega)]
    exact readPhysicalPage_of_large h.large h.lt (by decide)
  have hid : toInt32 (o + 0 * bitmapSize) = logicalPage 0 o := by
    refine toInt32_of_lt ?_
    have hsize : o < 32704 := ho
    omega
  unfold allocatePage
  rw [h.extents, allocateLoop, hread]
  simp only [Option.bind_eq_bind, Option.bind_some, hpage, hcount, hid,
    bitmapPageId_eq (Nat.zero_le 17), writePhysicalPage_eq]
  rfl

/-- What is read of the bitmaps of an overgrown file. -/
theorem Overgrown.readBitmap (h : d.Overgrown) (hi : i < d.numExtents) {p : Mem}
    (heq : d.file.readPhysicalPage (bitmapPageId i) = some p) : p = fun _ => 0 := by
  have hn := h.extents
  rw [bitmapPageId_eq (by omega)] at heq
  by_cases hlt : bitmapPage i * pageSize < 2 ^ 31
  · rw [readPhysicalPage_of_large h.large h.lt hlt] at heq
    exact (Option.some_inj.mp heq).symm
  · have hread : d.file.readPhysicalPage (bitmapPage i) = none :=
      if_neg (fun hc => hlt (by exact_mod_cast hc.2))
    rw [hread] at heq
    cases heq

/-- No page of an overgrown file is found to be allocated. -/
theorem Overgrown.isPageFree_ne (h : d.Overgrown) : d.isPageFree id ≠ some false := by
  intro heq
  unfold isPageFree at heq
  by_cases hi : bitmapIndex id < d.numExtents
  · rw [if_pos hi] at heq
    obtain ⟨p, hp, hfree⟩ := Option.map_eq_some_iff.mp heq
    have hmod : toSize id % bitmapSize < BitmapPage.maxSupportedSize := Nat.mod_lt _ (by decide)
    rw [h.readBitmap hi hp, BitmapPage.isPageFree_eq hmod, BitmapPage.isAllocated_zero] at hfree
    cases hfree
  · rw [if_neg hi] at heq
    cases heq

/-- A release in an overgrown file changes nothing, if it is not undefined. -/
theorem Overgrown.deAllocatePage_eq (h : d.Overgrown) (heq : d.deAllocatePage id = some d') :
    d' = ⟨d.file.put 0 d.metaData, d.metaData⟩ := by
  unfold deAllocatePage at heq
  by_cases hi : bitmapIndex id < d.numExtents
  · rw [if_pos hi] at heq
    obtain ⟨p, hp, heq⟩ := Option.bind_eq_some_iff.mp heq
    have hnone : BitmapPage.deAllocatePage (fun _ => 0) (toSize id % bitmapSize) = none := by
      have hzero := BitmapPage.isSome_deAllocatePage (p := fun _ => 0)
        (Nat.mod_lt (toSize id) (by decide : 0 < bitmapSize))
      rw [BitmapPage.isAllocated_zero] at hzero
      exact Option.isNone_iff_eq_none.mp (Option.isSome_eq_false_iff.mp hzero)
    rw [h.readBitmap hi hp] at heq
    simp only [hnone] at heq
    cases heq
    rfl
  · rw [if_neg hi] at heq
    cases heq
    rfl

end MiniSql.DiskManager
