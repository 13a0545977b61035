import MiniSql.Bytes

/-!
# Constants and identifiers

The constants of `common/config.h` and the row identifier of
`common/rowid.h`. A page id is a signed 32-bit number in the source; it is an
integer here, since no result depends on its width and the one negative id
that occurs is `invalidPageId`.
-/

namespace MiniSql

/-- `page_id_t`. -/
abbrev PageId := ℤ

/-- `INVALID_PAGE_ID`. -/
def invalidPageId : PageId := -1

/-- `PAGE_SIZE`. -/
def pageSize : ℕ := 4096

/-- `VARCHAR_MAX_LEN`. -/
def varcharMaxLen : ℕ := pageSize / 2

/-- `std::string`: a sequence of bytes. -/
abbrev StdString := List UInt8

/-- `RowId`: a page and a slot in it. -/
structure RowId where
  /-- `page_id_` -/
  pageId : PageId
  /-- `slot_num_` -/
  slotNum : ℕ
deriving DecidableEq, Repr

/-- `INVALID_ROWID`. -/
def invalidRowId : RowId := ⟨invalidPageId, 0⟩

end MiniSql
