import MiniSql.DiskLayout

/-!
# The offsets of the pages in the file

`ReadPhysicalPage` computes the offset of a page as an `int`,
`WritePhysicalPage` computes it as a `size_t`, and `GetFileSize` gives the
size of the file as an `int`. On a page the three agree
(`DiskFile.OffsetsAgree`) as long as the page starts below `2 ^ 31` bytes and
the size, once it is narrowed, still lies on the same side of the offset.

The declared range of the logical pages goes far beyond that. Of the
33423488 ids only the first 524270 have a page that starts below `2 ^ 31`
bytes, and in a file of that size or more the comparison in
`ReadPhysicalPage` says something else than the size of the file does
(`DiskManager.offsetsHold_iff`). Where the offsets agree, a page that is
written is the page that is read (`DiskManager.readPage_writePage`).
-/

namespace MiniSql

open Bytes

namespace DiskFile

/-- The offset in `ReadPhysicalPage`, an `int`. A product that is none
overflows. -/
def readOffset (id : PageId) : Option ℤ :=
  if -2 ^ 31 ≤ id * pageSize ∧ id * pageSize < 2 ^ 31 then some (id * pageSize) else none

/-- The offset in `WritePhysicalPage`, a `size_t`. -/
def writeOffset (id : PageId) : ℕ := (id % 2 ^ 64).toNat * pageSize % 2 ^ 64

/-- On a page of a file, the two offsets are one byte position, and the
comparison with `GetFileSize` is the one with the size of the file. -/
structure OffsetsAgree (f : DiskFile) (id : PageId) : Prop where
  offset : readOffset id = some (writeOffset id : ℤ)
  compare : f.getFileSize ≤ (writeOffset id : ℤ) ↔ f.size ≤ writeOffset id

/-- The size of the file is an `int`, or what is left of it after the
conversion is one that is larger than the offset. -/
def NarrowsAbove (f : DiskFile) (offset : ℕ) : Prop :=
  f.size < 2 ^ 31 ∨ f.size % 2 ^ 32 < 2 ^ 31 ∧ offset < f.size % 2 ^ 32

instance (f : DiskFile) (offset : ℕ) : Decidable (f.NarrowsAbove offset) :=
  inferInstanceAs (Decidable (_ ∨ _))

variable {f : DiskFile} {pageData : Mem} {id : PageId} {n offset : ℕ}

theorem NarrowsAbove.mono {offset' : ℕ} (h : f.NarrowsAbove offset) (hle : offset' ≤ offset) :
    f.NarrowsAbove offset' :=
  h.imp_right (fun hr => ⟨hr.1, hle.trans_lt hr.2⟩)

theorem writeOffset_eq (hn : n < 2 ^ 31) : writeOffset n = n * pageSize := by
  have hid : (n : ℤ) % 2 ^ 64 = n := Int.emod_eq_of_lt (Int.natCast_nonneg n) (by omega)
  rw [writeOffset, hid, Int.toNat_natCast]
  exact Nat.mod_eq_of_lt (by unfold pageSize; omega)

theorem readOffset_of_lt (hn : n * pageSize < 2 ^ 31) :
    readOffset n = some ((n * pageSize : ℕ) : ℤ) := by
  have hrange : -2 ^ 31 ≤ (n : ℤ) * (pageSize : ℕ) ∧ (n : ℤ) * (pageSize : ℕ) < 2 ^ 31 := by
    unfold pageSize at hn ⊢
    omega
  rw [readOffset, if_pos hrange, Nat.cast_mul]

theorem readOffset_of_le (hn : 2 ^ 31 ≤ n * pageSize) : readOffset n = none := by
  refine if_neg (fun h => ?_)
  have hlt : (n : ℤ) * (pageSize : ℕ) < 2 ^ 31 := h.2
  unfold pageSize at hn hlt
  omega

theorem readOffset_eq_some (n : ℕ) :
    readOffset n = some ((n * pageSize : ℕ) : ℤ) ↔ n * pageSize < 2 ^ 31 := by
  refine ⟨fun h => ?_, readOffset_of_lt⟩
  by_contra hge
  rw [readOffset_of_le (not_lt.mp hge)] at h
  exact Option.some_ne_none _ h.symm

/-- A narrowed size is on the same side of an offset as the size, unless it
is too large and is not above the offset any more. -/
theorem getFileSize_le_iff (h : offset < 2 ^ 31) :
    (f.getFileSize ≤ (offset : ℤ) ↔ f.size ≤ offset) ↔ f.NarrowsAbove offset := by
  unfold NarrowsAbove
  rw [getFileSize, toInt32_eq, Int.bmod_def]
  split <;> omega

/-- **The offsets agree** on the pages that start below `2 ^ 31` bytes, if
the size narrows well. -/
theorem offsetsAgree_iff (hn : n < 2 ^ 31) :
    f.OffsetsAgree n ↔ n * pageSize < 2 ^ 31 ∧ f.NarrowsAbove (n * pageSize) := by
  have hwrite := writeOffset_eq hn
  constructor
  · intro h
    have hlt := (readOffset_eq_some n).mp (hwrite ▸ h.offset)
    exact ⟨hlt, (getFileSize_le_iff hlt).mp (hwrite ▸ h.compare)⟩
  · rintro ⟨hlt, hnarrow⟩
    refine ⟨?_, ?_⟩
    · rw [hwrite]
      exact (readOffset_eq_some n).mpr hlt
    · rw [hwrite]
      exact (getFileSize_le_iff hlt).mpr hnarrow

/-- `ReadPhysicalPage`, in terms of its offset. -/
theorem readPhysicalPage_eq_readOffset (hid : 0 ≤ id) :
    f.readPhysicalPage id = (readOffset id).bind (fun offset =>
      if f.getFileSize ≤ offset then some (fun _ => 0)
      else some (fun a =>
        if offset.toNat + a < f.size then f.bytes (offset.toNat + a) else 0)) := by
  obtain ⟨n, rfl⟩ := Int.eq_ofNat_of_zero_le hid
  have hcast : (n : ℤ) * (pageSize : ℕ) < 2 ^ 31 ↔ n * pageSize < 2 ^ 31 := by
    exact_mod_cast Iff.rfl
  unfold readPhysicalPage
  by_cases hlt : n * pageSize < 2 ^ 31
  · rw [if_pos ⟨hid, hcast.mpr hlt⟩, readOffset_of_lt hlt, Option.bind_some, Int.toNat_natCast,
      Nat.cast_mul]
    rfl
  · rw [if_neg (fun h => hlt (hcast.mp h.2)), readOffset_of_le (not_lt.mp hlt)]
    rfl

/-- `WritePhysicalPage`, in terms of its offset. -/
theorem writePhysicalPage_eq_writeOffset (hn : n < 2 ^ 31) :
    f.writePhysicalPage n pageData =
      some ⟨max f.size (writeOffset n + pageSize),
        f.bytes.write (writeOffset n) (pageData.bytes 0 pageSize)⟩ := by
  rw [writePhysicalPage_eq, writeOffset_eq hn]
  rfl

/-- **Where the offsets agree**, what is read is the page in the file, with
zeroes beyond the end. -/
theorem OffsetsAgree.readPhysicalPage (hn : n < 2 ^ 31) (h : f.OffsetsAgree n) :
    f.readPhysicalPage n =
      some (fun a => if n * pageSize + a < f.size then f.page n a else 0) := by
  rw [readPhysicalPage_eq_readOffset (Int.natCast_nonneg n), h.offset, Option.bind_some,
    Int.toNat_natCast, writeOffset_eq hn]
  by_cases hle : f.size ≤ n * pageSize
  · rw [if_pos (by rw [← writeOffset_eq hn] at hle ⊢; exact h.compare.mpr hle)]
    refine congrArg some (funext (fun a => (if_neg ?_).symm))
    exact not_lt.mpr (hle.trans (Nat.le_add_right _ a))
  · rw [if_neg (by rw [← writeOffset_eq hn] at hle ⊢; exact fun hc => hle (h.compare.mp hc))]
    rfl

end DiskFile

namespace DiskManager

open DiskFile

/-- `MAX_VALID_PAGE_ID`. -/
def maxValidPageId : PageId := maxExtents * bitmapSize

/-- The offsets hold for a logical page: at the page itself, where
`MapPageId` puts it, and at the bitmap page of its extent. -/
structure OffsetsHold (f : DiskFile) (id : Int32) : Prop where
  page : f.OffsetsAgree (mapPageId id)
  bitmap : f.OffsetsAgree (bitmapPageId (bitmapIndex id))

variable {f : DiskFile} {id : Int32} {pageData : Mem}

theorem maxValidPageId_eq : maxValidPageId = 33423488 := by decide

/-- The physical page of a valid id. -/
theorem mapPageId_of_valid (h : 0 ≤ id.toInt) (hlt : id.toInt < maxValidPageId) :
    physicalPage id.toInt.toNat < 2 ^ 31 ∧ mapPageId id = physicalPage id.toInt.toNat := by
  rw [maxValidPageId_eq] at hlt
  have hbound : physicalPage id.toInt.toNat < 2 ^ 31 := by
    simp only [physicalPage, bitmapSize_eq]
    omega
  exact ⟨hbound, mapPageId_eq h hbound⟩

/-- The bitmap page of the extent of a valid id. It is before the page. -/
theorem bitmapPageId_of_valid (h : 0 ≤ id.toInt) (hlt : id.toInt < maxValidPageId) :
    bitmapPageId (bitmapIndex id) = bitmapPage (id.toInt.toNat / bitmapSize) ∧
      bitmapPage (id.toInt.toNat / bitmapSize) < physicalPage id.toInt.toNat := by
  rw [maxValidPageId_eq] at hlt
  have hindex : bitmapIndex id = id.toInt.toNat / bitmapSize := by
    rw [bitmapIndex, toSize_of_nonneg h]
    exact Nat.mod_eq_of_lt (by rw [bitmapSize_eq]; omega)
  refine ⟨?_, ?_⟩
  · rw [hindex]
    exact toInt32_of_lt (by rw [bitmapSize_eq]; omega)
  · simp only [bitmapPage, physicalPage, bitmapSize_eq]
    omega

/-- The first 524270 logical pages start below `2 ^ 31` bytes. -/
theorem physicalPage_lt_iff (q : ℕ) : physicalPage q * pageSize < 2 ^ 31 ↔ q < 524270 := by
  simp only [physicalPage, bitmapSize_eq, pageSize]
  omega

/-- **The offsets hold** for the valid ids below 524270, in the files whose
size narrows to what is still above the page, and for no other. -/
theorem offsetsHold_iff (f : DiskFile) (h : 0 ≤ id.toInt) (hlt : id.toInt < maxValidPageId) :
    OffsetsHold f id ↔
      id.toInt < 524270 ∧ f.NarrowsAbove (physicalPage id.toInt.toNat * pageSize) := by
  obtain ⟨hbound, hpage⟩ := mapPageId_of_valid h hlt
  obtain ⟨hbitmap, hbefore⟩ := bitmapPageId_of_valid h hlt
  have hid : id.toInt.toNat < 524270 ↔ id.toInt < 524270 := by omega
  have hagree : f.OffsetsAgree (mapPageId id) ↔
      id.toInt < 524270 ∧ f.NarrowsAbove (physicalPage id.toInt.toNat * pageSize) := by
    rw [hpage, offsetsAgree_iff hbound, physicalPage_lt_iff, hid]
  constructor
  · intro hold
    exact hagree.mp hold.page
  · intro hc
    refine ⟨hagree.mpr hc, ?_⟩
    -- the bitmap page comes first, so that what holds of the page holds of it
    have hle := Nat.mul_le_mul_right pageSize hbefore.le
    rw [hbitmap, offsetsAgree_iff (hbefore.trans hbound)]
    exact ⟨hle.trans_lt ((physicalPage_lt_iff _).mpr (hid.mpr hc.1)), hc.2.mono hle⟩

/-- In a file that is empty, the offsets hold for the first page. -/
theorem offsetsHold_iff_first : OffsetsHold .empty 0 :=
  (offsetsHold_iff .empty (by decide) (by decide)).mpr ⟨by decide, by decide⟩

/-- **They do not hold for every valid id.** The page 524270 starts at
`2 ^ 31` bytes, which is no `int`. -/
theorem not_offsetsHold :
    ¬ ∀ (f : DiskFile) (id : Int32), 0 ≤ id.toInt → id.toInt < maxValidPageId →
      OffsetsHold f id := by
  intro h
  have hpage := (h .empty 524270 (by decide) (by decide)).page.offset
  have hread : readOffset (mapPageId 524270) = none := by decide
  rw [hread] at hpage
  exact Option.some_ne_none _ hpage.symm

/-- **What is written is read**, where the offsets hold in the file that the
write leaves. -/
theorem readPage_writePage {d d' : DiskManager} (h : 0 ≤ id.toInt)
    (hlt : id.toInt < maxValidPageId) (hwrite : d.writePage id pageData = some d')
    (hold : OffsetsHold d'.file id) :
    (d'.readPage id).map (·.bytes 0 pageSize) = some (pageData.bytes 0 pageSize) := by
  obtain ⟨hbound, hpage⟩ := mapPageId_of_valid h hlt
  rw [writePage, if_pos h, hpage, writePhysicalPage_eq, Option.map_some] at hwrite
  obtain rfl := Option.some.inj hwrite
  have hagree := hold.page
  rw [hpage] at hagree
  rw [readPage, if_pos h, hpage, hagree.readPhysicalPage hbound, Option.map_some]
  refine congrArg some (List.map_congr_left (fun a ha => ?_))
  have ha' : 0 + a < pageSize := by
    rw [Nat.zero_add]
    exact List.mem_range.mp ha
  show (if _ < max d.file.size _ then (d.file.put _ pageData).page _ (0 + a) else 0) = _
  rw [if_pos (lt_max_of_lt_right (Nat.add_lt_add_left ha' _)), page_put ha', if_pos rfl]

end DiskManager

end MiniSql
