import MiniSql.BitmapPage
import MiniSql.Machine

/-!
# The disk manager

`DiskManager` of `storage/disk_manager.cpp` and the file under it. A physical
page is a page of the file: first the meta page, then for each extent its
bitmap page and its data pages. `MapPageId` numbers the data pages.

The sizes of the C++ types are kept where they decide something. The file has
a size in bytes, and `GetFileSize` gives it as an `int`; so are the offsets at
which `ReadPhysicalPage` reads, and an offset that is none is undefined
behaviour, which gives `none`. So does an index beyond the array of the meta
page. A buffer for a page is a memory of which the first `PAGE_SIZE` bytes are
looked at.
-/

namespace MiniSql

open Bytes

/-! ## The file -/

/-- A file of bytes. -/
structure DiskFile where
  /-- Its size. -/
  size : ℕ
  /-- Its bytes, up to the size. -/
  bytes : Mem

namespace DiskFile

/-- A file that has just been made. -/
def empty : DiskFile := ⟨0, fun _ => 0⟩

/-- The conversion of a size to a `page_id_t` or an `int`. -/
def toInt32 (n : ℕ) : ℤ := (UInt32.ofNat n).toInt32.toInt

/-- `GetFileSize`. -/
def getFileSize (f : DiskFile) : ℤ := toInt32 f.size

/-- The bytes from the start of a page on. -/
def page (f : DiskFile) (id : ℕ) : Mem := fun a => f.bytes (id * pageSize + a)

/-- The file with a page written, and with a hole before it if it was
shorter. -/
def put (f : DiskFile) (id : ℕ) (pageData : Mem) : DiskFile where
  size := max f.size (id * pageSize + pageSize)
  bytes := f.bytes.write (id * pageSize) (pageData.bytes 0 pageSize)

/-- `ReadPhysicalPage`. Beyond the size of the file, as far as that is an
`int`, it gives zeroes, and it fills the rest of a page with zeroes. -/
def readPhysicalPage (f : DiskFile) (id : PageId) : Option Mem :=
  if 0 ≤ id ∧ id * pageSize < 2 ^ 31 then
    if f.getFileSize ≤ id * pageSize then some (fun _ => 0)
    else some (fun a => if id.toNat * pageSize + a < f.size then f.page id.toNat a else 0)
  else none

/-- `WritePhysicalPage`, whose offset is a `size_t`. -/
def writePhysicalPage (f : DiskFile) (id : PageId) (pageData : Mem) : Option DiskFile :=
  if 0 ≤ id then some (f.put id.toNat pageData) else none

end DiskFile

/-! ## The disk manager -/

/-- `BITMAP_SIZE`. -/
def bitmapSize : ℕ := BitmapPage.maxSupportedSize

/-- `META_PAGE_ID`. -/
def metaPageId : PageId := 0

/-- `DiskManager`. -/
structure DiskManager where
  /-- `db_io_` -/
  file : DiskFile
  /-- `meta_data_` -/
  metaData : Mem

namespace DiskManager

open DiskFile

/-- `num_allocated_pages_`. -/
def numAllocatedPages (d : DiskManager) : ℕ := d.metaData.read32 0

/-- `num_extents_`. -/
def numExtents (d : DiskManager) : ℕ := d.metaData.read32 4

/-- `extent_used_page_[i]`. -/
def extentUsedPage (d : DiskManager) (i : ℕ) : ℕ := d.metaData.read32 (8 + 4 * i)

/-- The number of entries of `extent_used_page_` that a page has room for. -/
def maxExtents : ℕ := (pageSize - 8) / 4

/-- The constructor, on a file that is there. -/
def ofFile (f : DiskFile) : Option DiskManager :=
  (f.readPhysicalPage metaPageId).map (fun m => ⟨f, m⟩)

/-- The constructor, where there is no file. -/
def fresh : DiskManager := ⟨.empty, fun _ => 0⟩

/-- The physical page of the bitmap of an extent. -/
def bitmapPageId (i : ℕ) : PageId := toInt32 (i * (bitmapSize + 1) + 1)

/-- A `page_id_t` as a `size_t`. -/
def toSize (id : Int32) : ℕ := (id.toInt % 2 ^ 64).toNat

/-- `MapPageId`. -/
def mapPageId (id : Int32) : PageId :=
  toInt32 (toSize id / bitmapSize * (bitmapSize + 1) + toSize id % bitmapSize + 2)

/-- Add a number to `num_allocated_pages_` and to `extent_used_page_[i]`. -/
def count (m : Mem) (i n : ℕ) : Option Mem :=
  if i < maxExtents then
    some ((m.write32 0 (m.read32 0 + n)).write32 (8 + 4 * i) (m.read32 (8 + 4 * i) + n))
  else none

/-- The loop of `AllocatePage` over the extents, from one on: the page that is
found, if any. -/
def allocateLoop (d : DiskManager) : ℕ → ℕ → Option (Option (PageId × DiskManager))
  | 0, _ => some none
  | rounds + 1, i => do
    let openPage ← d.file.readPhysicalPage (bitmapPageId i)
    match BitmapPage.allocatePage openPage with
    | some (offset, openPage) =>
      let metaData ← count d.metaData i 1
      let file ← d.file.writePhysicalPage (bitmapPageId i) openPage
      return some (toInt32 (offset + i * bitmapSize), ⟨file, metaData⟩)
    | none => allocateLoop d rounds (i + 1)

/-- `AllocatePage`. -/
def allocatePage (d : DiskManager) : Option (PageId × DiskManager) := do
  match ← d.allocateLoop d.numExtents 0 with
  | some r => return r
  | none =>
    let metaData := d.metaData.write32 4 (d.numExtents + 1)
    -- the last extent, as a `uint32_t`
    let last := (metaData.read32 4 + (2 ^ 32 - 1)) % 2 ^ 32
    match BitmapPage.allocatePage (fun _ => 0) with
    | some (offset, openPage) =>
      let metaData ← count metaData last 1
      let file ← d.file.writePhysicalPage (bitmapPageId last) openPage
      let file ← file.writePhysicalPage metaPageId metaData
      return (toInt32 (offset + last * bitmapSize), ⟨file, metaData⟩)
    | none =>
      let file ← d.file.writePhysicalPage metaPageId metaData
      return (invalidPageId, ⟨file, metaData⟩)

/-- The extent of a page, as an `unsigned int`. -/
def bitmapIndex (id : Int32) : ℕ := toSize id / bitmapSize % 2 ^ 32

/-- `DeAllocatePage`. The bitmap with the bit cleared stays in memory. -/
def deAllocatePage (d : DiskManager) (id : Int32) : Option DiskManager := do
  let metaData ←
    if bitmapIndex id < d.numExtents then do
      let openPage ← d.file.readPhysicalPage (bitmapPageId (bitmapIndex id))
      match BitmapPage.deAllocatePage openPage (toSize id % bitmapSize) with
      | some _ => count d.metaData (bitmapIndex id) (2 ^ 32 - 1)
      | none => some d.metaData
    else some d.metaData
  let file ← d.file.writePhysicalPage metaPageId metaData
  return ⟨file, metaData⟩

/-- `IsPageFree`. -/
def isPageFree (d : DiskManager) (id : Int32) : Option Bool :=
  if bitmapIndex id < d.numExtents then
    (d.file.readPhysicalPage (bitmapPageId (bitmapIndex id))).map
      (fun openPage => BitmapPage.isPageFree openPage (toSize id % bitmapSize))
  else some true

/-- `ReadPage`. -/
def readPage (d : DiskManager) (id : Int32) : Option Mem :=
  if 0 ≤ id.toInt then d.file.readPhysicalPage (mapPageId id) else none

/-- `WritePage`. -/
def writePage (d : DiskManager) (id : Int32) (pageData : Mem) : Option DiskManager :=
  if 0 ≤ id.toInt then
    (d.file.writePhysicalPage (mapPageId id) pageData).map (fun f => { d with file := f })
  else none

end DiskManager

/-! ## Calls -/

/-- The calls of a disk manager. -/
inductive DiskCall
  | allocatePage
  | deAllocatePage (id : Int32)
  | readPage (id : Int32)
  | writePage (id : Int32) (pageData : Mem)

/-- Their answers. -/
inductive DiskAnswer
  | allocated (id : PageId)
  | done
  | read (bytes : List UInt8)
deriving DecidableEq

/-- One call. -/
def DiskManager.step (d : DiskManager) : DiskCall → Option (DiskManager × DiskAnswer)
  | .allocatePage => d.allocatePage.map (fun r => (r.2, .allocated r.1))
  | .deAllocatePage id => (d.deAllocatePage id).map (fun d => (d, .done))
  | .readPage id => (d.readPage id).map (fun page => (d, .read (page.bytes 0 pageSize)))
  | .writePage id pageData => (d.writePage id pageData).map (fun d => (d, .done))

end MiniSql
