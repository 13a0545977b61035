import MiniSql.Config
import Mathlib.Data.Nat.Bitwise

/-!
# The slotted page

`TablePage` of `page/table_page.cpp`, over the bytes of its page. The header
is twenty-four bytes, then come eight bytes for each slot (the offset and
the size of its tuple), and the tuples themselves are packed at the end of
the page, from the free space pointer on. A slot of size zero is free, and
the top bit of the size marks a tuple as deleted.

All arithmetic is that of `uint32_t`: `add32` and `sub32` wrap. A failed
assertion is `none`. A row enters a page as the bytes that
`Row::SerializeTo` writes, a `Tuple`, and leaves it as the bytes from which
`Row::DeserializeFrom` reads it.
-/

namespace MiniSql

/-- The addition of `uint32_t`. -/
def add32 (a b : ℕ) : ℕ := (a + b) % 2 ^ 32

/-- The subtraction of `uint32_t`. -/
def sub32 (a b : ℕ) : ℕ := (a + 2 ^ 32 - b) % 2 ^ 32

/-- The bytes of a row: not empty, as `InsertTuple` and `UpdateTuple` assert,
and counted by a `uint32_t`. -/
structure Tuple where
  /-- What `Row::SerializeTo` writes. -/
  bytes : List UInt8
  /-- `serialized_size > 0` -/
  pos : 0 < bytes.length
  /-- `serialized_size` is a `uint32_t`. -/
  lt : bytes.length < 2 ^ 32
deriving DecidableEq

/-- `GetSerializedSize`. -/
def Tuple.size (t : Tuple) : ℕ := t.bytes.length

/-- `TablePage`: the bytes of a page. -/
abbrev TablePage := Bytes.Mem

namespace TablePage

/-- `DELETE_MASK`. -/
def deleteMask : ℕ := 2 ^ 31

/-- `IsDeleted`. -/
def isDeleted (tupleSize : ℕ) : Bool := tupleSize &&& deleteMask ≠ 0 || tupleSize = 0

/-- `SetDeletedFlag`. -/
def setDeletedFlag (tupleSize : ℕ) : ℕ := tupleSize ||| deleteMask

/-- `UnsetDeletedFlag`; the complement of the mask has the 31 bits below
it. -/
def unsetDeletedFlag (tupleSize : ℕ) : ℕ := tupleSize &&& (2 ^ 31 - 1)

/-- A `page_id_t` in memory. -/
def ofPageId (id : Int32) : ℕ := id.toUInt32.toNat

/-- `GetTablePageId`. -/
def getTablePageId (p : TablePage) : PageId := (UInt32.ofNat (p.read32 0)).toInt32.toInt

/-- The `page_id_t` that a word in memory stands for. -/
def toPageId (n : ℕ) : PageId := (UInt32.ofNat n).toInt32.toInt

/-- `GetPrevPageId`. -/
def getPrevPageId (p : TablePage) : PageId := toPageId (p.read32 8)

/-- `GetNextPageId`. -/
def getNextPageId (p : TablePage) : PageId := toPageId (p.read32 12)

/-- `SetPrevPageId`. -/
def setPrevPageId (p : TablePage) (id : Int32) : TablePage := p.write32 8 (ofPageId id)

/-- `SetNextPageId`. -/
def setNextPageId (p : TablePage) (id : Int32) : TablePage := p.write32 12 (ofPageId id)

/-- `GetFreeSpacePointer`. -/
def getFreeSpacePointer (p : TablePage) : ℕ := p.read32 16

/-- `SetFreeSpacePointer`. -/
def setFreeSpacePointer (p : TablePage) (n : ℕ) : TablePage := p.write32 16 n

/-- `GetTupleCount`. -/
def getTupleCount (p : TablePage) : ℕ := p.read32 20

/-- `SetTupleCount`. -/
def setTupleCount (p : TablePage) (n : ℕ) : TablePage := p.write32 20 n

/-- `GetFreeSpaceRemaining`: computed as a `size_t`, returned as a
`uint32_t`. -/
def getFreeSpaceRemaining (p : TablePage) : ℕ :=
  (p.getFreeSpacePointer + 2 ^ 64 - 24 - 8 * p.getTupleCount) % 2 ^ 32

/-- `GetTupleOffsetAtSlot`. -/
def getTupleOffsetAtSlot (p : TablePage) (i : ℕ) : ℕ := p.read32 (24 + 8 * i)

/-- `SetTupleOffsetAtSlot`. -/
def setTupleOffsetAtSlot (p : TablePage) (i n : ℕ) : TablePage := p.write32 (24 + 8 * i) n

/-- `GetTupleSize`. -/
def getTupleSize (p : TablePage) (i : ℕ) : ℕ := p.read32 (28 + 8 * i)

/-- `SetTupleSize`. -/
def setTupleSize (p : TablePage) (i n : ℕ) : TablePage := p.write32 (28 + 8 * i) n

/-- `Init`, on memory with any contents. -/
def init (m : Bytes.Mem) (pageId prevId : Int32) : TablePage :=
  setTupleCount (setFreeSpacePointer (setNextPageId (setPrevPageId
    (m.write32 0 (ofPageId pageId)) prevId) (-1)) pageSize) 0

/-- The first loop of `InsertTuple`: the first slot of size zero, else the
number of slots. -/
def freeSlot (p : TablePage) : ℕ :=
  (List.range p.getTupleCount).findIdx (fun i => p.getTupleSize i = 0)

/-- `InsertTuple`: the row id given to the row, or nothing where the tuple
does not fit. -/
def insertTuple (p : TablePage) (row : Tuple) : TablePage × Option RowId :=
  if p.getFreeSpaceRemaining < row.size + 8 then (p, none)
  else
    let i := p.freeSlot
    if i = p.getTupleCount ∧ p.getFreeSpaceRemaining < row.size + 8 then (p, none)
    else
      let p := p.setFreeSpacePointer (sub32 p.getFreeSpacePointer row.size)
      let p : TablePage := p.write p.getFreeSpacePointer row.bytes
      let p := p.setTupleOffsetAtSlot i p.getFreeSpacePointer
      let p := p.setTupleSize i row.size
      let rid : RowId := ⟨p.getTablePageId, i⟩
      (if i = p.getTupleCount then p.setTupleCount (add32 p.getTupleCount 1) else p, some rid)

/-- `MarkDelete`. -/
def markDelete (p : TablePage) (rid : RowId) : TablePage × Bool :=
  let slotNum := rid.slotNum
  if p.getTupleCount ≤ slotNum then (p, false)
  else
    let tupleSize := p.getTupleSize slotNum
    if isDeleted tupleSize then (p, false)
    else if 0 < tupleSize then (p.setTupleSize slotNum (setDeletedFlag tupleSize), true)
    else (p, true)

/-- The loops at the end of `UpdateTuple` and `ApplyDelete`: the tuples whose
offset is below the bound slide by `up - down`. -/
def shiftOffsets (p : TablePage) (bound up down : ℕ) : TablePage :=
  (List.range p.getTupleCount).foldl
    (fun q i =>
      if 0 < q.getTupleSize i ∧ q.getTupleOffsetAtSlot i < bound then
        q.setTupleOffsetAtSlot i (sub32 (add32 (q.getTupleOffsetAtSlot i) up) down)
      else q) p

/-- `UpdateTuple`: `-1` for an illegal operation, `0` where there is not
enough space, `1` for success, with the old tuple copied out. -/
def updateTuple (p : TablePage) (row : Tuple) (rid : RowId) :
    Option (TablePage × ℤ × Option (List UInt8)) :=
  if rid = invalidRowId then none
  else
    let slotNum := rid.slotNum
    if p.getTupleCount ≤ slotNum then some (p, -1, none)
    else
      let tupleSize := p.getTupleSize slotNum
      if isDeleted tupleSize then some (p, -1, none)
      else if add32 p.getFreeSpaceRemaining tupleSize < row.size then some (p, 0, none)
      else
        let tupleOffset := p.getTupleOffsetAtSlot slotNum
        let oldRow := p.bytes tupleOffset tupleSize
        let freeSpacePointer := p.getFreeSpacePointer
        if tupleOffset < freeSpacePointer then none
        else
          let p : TablePage := p.move (freeSpacePointer + tupleSize - row.size) freeSpacePointer
            (tupleOffset - freeSpacePointer)
          let p := p.setFreeSpacePointer (sub32 (add32 freeSpacePointer tupleSize) row.size)
          let p : TablePage := p.write (tupleOffset + tupleSize - row.size) row.bytes
          let p := p.setTupleSize slotNum row.size
          some (p.shiftOffsets (add32 tupleOffset tupleSize) tupleSize row.size, 1, some oldRow)

/-- `ApplyDelete`. -/
def applyDelete (p : TablePage) (rid : RowId) : Option TablePage :=
  let slotNum := rid.slotNum
  if p.getTupleCount ≤ slotNum then none
  else
    let tupleOffset := p.getTupleOffsetAtSlot slotNum
    let tupleSize :=
      if isDeleted (p.getTupleSize slotNum) then unsetDeletedFlag (p.getTupleSize slotNum)
      else p.getTupleSize slotNum
    let freeSpacePointer := p.getFreeSpacePointer
    if tupleOffset < freeSpacePointer then none
    else
      let p : TablePage := p.move (freeSpacePointer + tupleSize) freeSpacePointer
        (tupleOffset - freeSpacePointer)
      let p := p.setFreeSpacePointer (add32 freeSpacePointer tupleSize)
      let p := p.setTupleSize slotNum 0
      let p := p.setTupleOffsetAtSlot slotNum 0
      some (p.shiftOffsets tupleOffset tupleSize 0)

/-- `RollbackDelete`. -/
def rollbackDelete (p : TablePage) (rid : RowId) : Option TablePage :=
  let slotNum := rid.slotNum
  if p.getTupleCount ≤ slotNum then none
  else
    let tupleSize := p.getTupleSize slotNum
    if isDeleted tupleSize then some (p.setTupleSize slotNum (unsetDeletedFlag tupleSize))
    else some p

/-- `GetTuple`: the bytes of the tuple, or nothing for a slot without a live
tuple. -/
def getTuple (p : TablePage) (rid : RowId) : Option (Option (List UInt8)) :=
  if rid = invalidRowId then none
  else
    let slotNum := rid.slotNum
    if p.getTupleCount ≤ slotNum then some none
    else
      let tupleSize := p.getTupleSize slotNum
      if isDeleted tupleSize then some none
      else some (some (p.bytes (p.getTupleOffsetAtSlot slotNum) tupleSize))

/-- The loops of `GetFirstTupleRid` and `GetNextTupleRid`: the first slot from
the given one on that has a live tuple. -/
def liveSlotFrom (p : TablePage) (start : ℕ) : Option ℕ :=
  (List.range' start (p.getTupleCount - start)).find? (fun i => !isDeleted (p.getTupleSize i))

/-- The row id that the two functions set, and what they return. -/
def ridOfSlot (p : TablePage) : Option ℕ → RowId × Bool
  | some i => (⟨p.getTablePageId, i⟩, true)
  | none => (⟨invalidPageId, 0⟩, false)

/-- `GetFirstTupleRid`. -/
def getFirstTupleRid (p : TablePage) : RowId × Bool := p.ridOfSlot (p.liveSlotFrom 0)

/-- `GetNextTupleRid`, which asserts that the row id is one of this page. -/
def getNextTupleRid (p : TablePage) (cur : RowId) : Option (RowId × Bool) :=
  if cur.pageId = p.getTablePageId then
    some (p.ridOfSlot (p.liveSlotFrom (add32 cur.slotNum 1)))
  else none

end TablePage

/-- The calls of a slotted page. -/
inductive TableCall
  | insertTuple (row : Tuple)
  | updateTuple (row : Tuple) (rid : RowId)
  | markDelete (rid : RowId)
  | rollbackDelete (rid : RowId)
  | applyDelete (rid : RowId)
  | getTuple (rid : RowId)

/-- Their answers. -/
inductive TableAnswer
  | inserted (rid : Option RowId)
  | updated (code : ℤ) (oldRow : Option (List UInt8))
  | marked (b : Bool)
  | done
  | got (row : Option (List UInt8))
deriving DecidableEq

/-- One call of a slotted page. -/
def TablePage.step (p : TablePage) : TableCall → Option (TablePage × TableAnswer)
  | .insertTuple row => some ((p.insertTuple row).1, .inserted (p.insertTuple row).2)
  | .updateTuple row rid => (p.updateTuple row rid).map (fun r => (r.1, .updated r.2.1 r.2.2))
  | .markDelete rid => some ((p.markDelete rid).1, .marked (p.markDelete rid).2)
  | .rollbackDelete rid => (p.rollbackDelete rid).map (fun r => (r, .done))
  | .applyDelete rid => (p.applyDelete rid).map (fun r => (r, .done))
  | .getTuple rid => (p.getTuple rid).map (fun r => (p, .got r))

end MiniSql
