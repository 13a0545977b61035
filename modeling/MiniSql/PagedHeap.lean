import MiniSql.Machine
import MiniSql.PageStore
import MiniSql.Record
import MiniSql.TablePageLinks

/-!
# The table heap over its pages

`TableHeap` of `storage/table_heap.cpp` on the bytes of its pages, for what
depends on how the pages are linked: the loop of `InsertTuple` follows the
`next_page_id_` of each page, and a new page is linked to the last one. The
module `TableHeap` takes the chain for granted; here it is in the pages.

The pages of the heap are in a store that keeps what is written to them, and
`NewPage` always succeeds (the id that it gives stands in the call). A page
that is not one of the heap is not in the store. A row enters a page as the
bytes of `Row::SerializeTo` and leaves it through `Row::DeserializeFrom`, with
the assertion that all bytes of the tuple have been read.
-/

namespace MiniSql

/-- The bytes of a row, of which there must be some. -/
def Tuple.ofFields (fields : List Field) : Option Tuple :=
  match Row.serializeFields fields with
  | none => none
  | some (bytes, _) =>
    if h : 0 < bytes.length ∧ bytes.length < 2 ^ 32 then some ⟨bytes, h.1, h.2⟩ else none

namespace TablePage

/-- `Row::DeserializeFrom` on the bytes of a tuple, with the assertion that
follows it. -/
def readRow (schema : Schema) (bytes : List UInt8) : Option (List Field) :=
  match Row.deserializeFields schema.columns bytes with
  | none => none
  | some (fields, n) => if n.toNat = bytes.length then some fields else none

/-- `GetTuple`: the fields of the row, or nothing for a slot without a live
tuple. -/
def getRow (p : TablePage) (schema : Schema) (rid : RowId) : Option (Option (List Field)) :=
  match p.getTuple rid with
  | none => none
  | some none => some none
  | some (some bytes) => (readRow schema bytes).map some

end TablePage

/-- `TableHeap`, with the pages of the heap. -/
structure PagedHeap where
  /-- `buffer_pool_manager_` -/
  bufferPool : PageStore
  /-- `first_page_id_` -/
  firstPageId : PageId
  /-- `schema_` -/
  schema : Schema

namespace PagedHeap

/-- `TableHeap::Create`, with the id that `NewPage` gives. -/
def create (schema : Schema) (pageId : PageId) : Option PagedHeap := do
  let p ← PageStore.newPage ⟨[], fun _ _ => 0⟩ pageId
  let page ← p.fetchPage pageId
  some ⟨p.writePage pageId (TablePage.init page (Int32.ofInt pageId) (-1)), pageId, schema⟩

/-- The loop of `InsertTuple` with `TablePage::InsertTuple` as `insert`, for at
most the given number of rounds: the row id, if a page has room, and else the
page that `page` points to at the end. -/
def insertLoop (p : PageStore) (insert : TablePage → TablePage × Option RowId) :
    ℕ → PageId → Option PageId → Option (PageStore × Option RowId × Option PageId)
  | 0, pageId, page => if pageId = invalidPageId then some (p, none, page) else none
  | n + 1, pageId, page =>
    if pageId = invalidPageId then some (p, none, page)
    else
      match p.fetchPage pageId with
      | none => none
      | some q =>
        match insert q with
        | (q', some rid) => some (p.writePage pageId q', some rid, some pageId)
        | (_, none) => insertLoop p insert n (TablePage.getNextPageId q) (some pageId)

/-- `InsertTuple`, with the id that `NewPage` gives where it is called. A chain
on which the loop never ends would be one on which it makes more rounds than
there are pages. -/
def insertTuple (h : PagedHeap) (row : List Field) (newPageId : PageId) :
    Option (PagedHeap × Option RowId) := do
  let t ← Tuple.ofFields row
  let (p, rid, page) ←
    insertLoop h.bufferPool (TablePage.insertTuple · t) h.bufferPool.allocated.length
      h.firstPageId none
  match rid with
  | some rid => some ({ h with bufferPool := p }, some rid)
  | none =>
    let currPageId ← page
    let p ← p.newPage newPageId
    let page ← p.fetchPage currPageId
    let p := p.writePage currPageId (TablePage.setNextPageId page (Int32.ofInt newPageId))
    let page ← p.fetchPage newPageId
    let (page, rid) := TablePage.insertTuple
      (TablePage.init page (Int32.ofInt newPageId) (Int32.ofInt currPageId)) t
    some ({ h with bufferPool := p.writePage newPageId page }, rid)

/-- `MarkDelete`. -/
def markDelete (h : PagedHeap) (rid : RowId) : Option PagedHeap :=
  (h.bufferPool.fetchPage rid.pageId).map (fun page =>
    { h with bufferPool :=
        h.bufferPool.writePage rid.pageId (TablePage.markDelete page rid).1 })

/-- `ApplyDelete`. -/
def applyDelete (h : PagedHeap) (rid : RowId) : Option PagedHeap := do
  let page ← h.bufferPool.fetchPage rid.pageId
  let page ← TablePage.applyDelete page rid
  some { h with bufferPool := h.bufferPool.writePage rid.pageId page }

/-- `RollbackDelete`. -/
def rollbackDelete (h : PagedHeap) (rid : RowId) : Option PagedHeap := do
  let page ← h.bufferPool.fetchPage rid.pageId
  let page ← TablePage.rollbackDelete page rid
  some { h with bufferPool := h.bufferPool.writePage rid.pageId page }

/-- `GetTuple`. -/
def getTuple (h : PagedHeap) (rid : RowId) : Option (Option (List Field)) :=
  (h.bufferPool.fetchPage rid.pageId).bind (fun page => TablePage.getRow page h.schema rid)

/-- `UpdateTuple`, with the id that `NewPage` gives where it is called. The
second result is the row id that the row is given, if it is given one. -/
def updateTuple (h : PagedHeap) (row : List Field) (rid : RowId) (newPageId : PageId) :
    Option (PagedHeap × Bool × Option RowId) := do
  let page ← h.bufferPool.fetchPage rid.pageId
  let _oldRow ← TablePage.getRow page h.schema rid
  let t ← Tuple.ofFields row
  let (page, res, _) ← TablePage.updateTuple page t rid
  if res = 0 then
    let h ← h.markDelete rid
    let h ← h.applyDelete rid
    let (h, rid') ← h.insertTuple row newPageId
    some (h, true, rid')
  else if res = 1 then
    some ({ h with bufferPool := h.bufferPool.writePage rid.pageId page }, true, some rid)
  else some (h, false, none)

/-- The calls of a table heap, each with the id that `NewPage` gives in it. -/
inductive Call
  | insertTuple (row : List Field) (newPageId : PageId)
  | markDelete (rid : RowId)
  | applyDelete (rid : RowId)
  | rollbackDelete (rid : RowId)
  | updateTuple (row : List Field) (rid : RowId) (newPageId : PageId)
  | getTuple (rid : RowId)

/-- Their answers. -/
inductive Answer
  | inserted (rid : Option RowId)
  | done
  | updated (b : Bool) (rid : Option RowId)
  | got (row : Option (List Field))
deriving DecidableEq

/-- One call; stuck where an assertion fails. -/
def step (h : PagedHeap) : Call → Option (PagedHeap × Answer)
  | .insertTuple row newPageId =>
    (h.insertTuple row newPageId).map (fun r => (r.1, .inserted r.2))
  | .markDelete rid => (h.markDelete rid).map (fun h => (h, .done))
  | .applyDelete rid => (h.applyDelete rid).map (fun h => (h, .done))
  | .rollbackDelete rid => (h.rollbackDelete rid).map (fun h => (h, .done))
  | .updateTuple row rid newPageId =>
    (h.updateTuple row rid newPageId).map (fun r => (r.1, .updated r.2.1 r.2.2))
  | .getTuple rid => (h.getTuple rid).map (fun r => (h, .got r))

/-! ## What is on the pages -/

/-- The links from one page id on lead through the pages of the list, each of
which has the one before it as its predecessor, to `INVALID_PAGE_ID`. -/
def Linked (p : PageStore) : PageId → PageId → List PageId → Prop
  | _, cur, [] => cur = invalidPageId
  | prev, cur, id :: ids =>
    cur = id ∧ TablePage.getPrevPageId (p.data id) = prev ∧
      Linked p id (TablePage.getNextPageId (p.data id)) ids

/-- **The chain of the heap**: from `first_page_id_` the links lead through
distinct pages in use to `INVALID_PAGE_ID`, and back. -/
def IsChain (h : PagedHeap) (ids : List PageId) : Prop :=
  ids.Nodup ∧ (∀ id ∈ ids, id ∈ h.bufferPool.allocated ∧ id ≠ invalidPageId) ∧
    Linked h.bufferPool invalidPageId h.firstPageId ids

/-- The tuple in a slot of a page, as bytes. -/
def slotAt (p : TablePage) (i : ℕ) : Slot (List UInt8) :=
  if p.getTupleCount ≤ i ∨ p.getTupleSize i = 0 then .free
  else if TablePage.isDeleted (p.getTupleSize i) then
    .marked (p.bytes (p.getTupleOffsetAtSlot i) (TablePage.unsetDeletedFlag (p.getTupleSize i)))
  else .live (p.bytes (p.getTupleOffsetAtSlot i) (p.getTupleSize i))

/-- The tuple that a row id denotes: a live one, a marked one or none. -/
def tupleAt (h : PagedHeap) (rid : RowId) : Slot (List UInt8) :=
  match h.bufferPool.fetchPage rid.pageId with
  | none => .free
  | some page => slotAt page rid.slotNum

end PagedHeap

end MiniSql
