import MiniSql.DiskManager

/-!
# The layout of the file

While the file is smaller than `2 ^ 31` bytes, `ReadPhysicalPage` reads what
was written last at a page, and zeroes where nothing was written
(`DiskFile.readPhysicalPage_eq`, `DiskFile.page_put`). `MapPageId` gives
every logical page a page of its own, and never the meta page or a bitmap page.
-/

namespace MiniSql

open Bytes

namespace DiskFile

variable {f : DiskFile} {pageData : Mem} {n id id' a : ℕ}

theorem toInt32_eq (n : ℕ) : toInt32 n = (n : ℤ).bmod (2 ^ 32) := BitVec.toInt_ofNat' n

theorem toInt32_of_lt (h : n < 2 ^ 31) : toInt32 n = n := by
  rw [toInt32_eq, Int.bmod_eq_of_le (by omega) (by omega)]

/-- A size that is too large for an `int` becomes a negative number. -/
theorem toInt32_neg (h : 2 ^ 31 ≤ n) (h' : n < 2 ^ 32) : toInt32 n < 0 := by
  rw [toInt32_eq, Int.bmod_def]
  split <;> omega

/-- The size is an `int`, and there is nothing beyond it. -/
structure Fits (f : DiskFile) : Prop where
  size : f.size < 2 ^ 31
  zero : ∀ a, f.size ≤ a → f.bytes a = 0

/-- **A page is read** as it is in the file. -/
theorem readPhysicalPage_eq (h : f.Fits) (hid : id * pageSize < 2 ^ 31) :
    f.readPhysicalPage id = some (f.page id) := by
  have hoffset : (0 : ℤ) ≤ id ∧ (id : ℤ) * (pageSize : ℕ) < 2 ^ 31 :=
    ⟨Int.natCast_nonneg id, by exact_mod_cast hid⟩
  rw [readPhysicalPage, if_pos hoffset, getFileSize, toInt32_of_lt h.size]
  split
  · rename_i hle
    refine congrArg some (funext (fun a => (h.zero _ ?_).symm))
    have hle' : f.size ≤ id * pageSize := by exact_mod_cast hle
    exact hle'.trans (Nat.le_add_right _ a)
  · refine congrArg some (funext (fun a => ?_))
    rw [Int.toNat_natCast]
    split
    · rfl
    · rename_i hlt
      exact (h.zero _ (not_lt.mp hlt)).symm

/-- **A page that is written** is there, and the others stay. -/
theorem page_put (ha : a < pageSize) :
    (f.put id pageData).page id' a = if id' = id then pageData a else f.page id' a := by
  have hblock : id' = id ↔
      id * pageSize ≤ id' * pageSize + a ∧ id' * pageSize + a < id * pageSize + pageSize := by
    constructor
    · rintro rfl
      exact ⟨Nat.le_add_right _ a, Nat.add_lt_add_left ha _⟩
    · rintro ⟨hle, hlt⟩
      unfold pageSize at ha hle hlt
      omega
  show (f.bytes.write (id * pageSize) (pageData.bytes 0 pageSize)) (id' * pageSize + a) = _
  rw [Mem.write, Mem.length_bytes]
  by_cases h : id' = id
  · rw [if_pos h, if_pos (hblock.mp h), h, Nat.add_sub_cancel_left, Mem.bytes,
      List.getD_eq_getElem _ _ (by rwa [List.length_map, List.length_range]), List.getElem_map,
      List.getElem_range, Nat.zero_add]
  · rw [if_neg h, if_neg (fun hc => h (hblock.mpr hc))]
    rfl

theorem Fits.put (h : f.Fits) (hid : (id + 1) * pageSize < 2 ^ 31) : (f.put id pageData).Fits where
  size := max_lt h.size (by rw [← Nat.succ_mul]; exact hid)
  zero a ha := by
    have hsize : f.size ≤ a ∧ id * pageSize + pageSize ≤ a := max_le_iff.mp ha
    rw [← h.zero a hsize.1]
    exact Mem.write_of_not (.inr (by rw [Mem.length_bytes]; exact hsize.2))

theorem fits_empty : DiskFile.empty.Fits := ⟨by decide, fun _ _ => rfl⟩

theorem writePhysicalPage_eq : f.writePhysicalPage id pageData = some (f.put id pageData) :=
  if_pos (Int.natCast_nonneg id)

/-- **In a file of `2 ^ 31` bytes or more** nothing is read. -/
theorem readPhysicalPage_of_large (h : 2 ^ 31 ≤ f.size) (h' : f.size < 2 ^ 32)
    (hid : id * pageSize < 2 ^ 31) : f.readPhysicalPage id = some (fun _ => 0) := by
  have hoffset : (0 : ℤ) ≤ id ∧ (id : ℤ) * (pageSize : ℕ) < 2 ^ 31 :=
    ⟨Int.natCast_nonneg id, by exact_mod_cast hid⟩
  have hneg : f.getFileSize ≤ (id : ℤ) * (pageSize : ℕ) := by
    have hsize : f.getFileSize < 0 := toInt32_neg h h'
    exact hsize.le.trans (mul_nonneg hoffset.1 (Int.natCast_nonneg _))
  rw [readPhysicalPage, if_pos hoffset, if_pos hneg]

end DiskFile

/-! ## The places of the logical pages -/

namespace DiskManager

open DiskFile

variable {id id' : Int32}

@[simp] theorem bitmapSize_eq : bitmapSize = 32704 := rfl

/-- The physical page of the bitmap of an extent, as a number. -/
def bitmapPage (i : ℕ) : ℕ := i * (bitmapSize + 1) + 1

/-- The physical page of a logical page, as a number. -/
def physicalPage (q : ℕ) : ℕ := q / bitmapSize * (bitmapSize + 1) + q % bitmapSize + 2

theorem bitmapPageId_eq {i : ℕ} (h : i ≤ 17) : bitmapPageId i = bitmapPage i :=
  toInt32_of_lt (by rw [bitmapSize_eq]; omega)

theorem toSize_of_nonneg (h : 0 ≤ id.toInt) : toSize id = id.toInt.toNat := by
  have hlt := Int32.toInt_lt id
  rw [toSize, Int.emod_eq_of_lt h (by omega)]

theorem mapPageId_eq (h : 0 ≤ id.toInt) (hlt : physicalPage id.toInt.toNat < 2 ^ 31) :
    mapPageId id = physicalPage id.toInt.toNat := by
  rw [mapPageId, toSize_of_nonneg h]
  exact toInt32_of_lt hlt

/-- Two logical pages have two places. -/
theorem physicalPage_injective : Function.Injective physicalPage := by
  intro q q' h
  simp only [physicalPage, bitmapSize_eq] at h
  omega

/-- No logical page is at the place of the meta page or of a bitmap page. -/
theorem physicalPage_ne (q i : ℕ) : physicalPage q ≠ 0 ∧ physicalPage q ≠ bitmapPage i := by
  simp only [physicalPage, bitmapPage, bitmapSize_eq]
  constructor <;> omega

end DiskManager

end MiniSql
