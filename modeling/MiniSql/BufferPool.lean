import MiniSql.LruReplacer
import MiniSql.Machine
import Mathlib.Logic.Function.Basic

/-!
# The buffer pool

`BufferPoolManager` of `buffer/buffer_pool_manager.cpp` over a disk manager
that is a map from page ids to page contents together with a correct
allocator. Pages contents are of any type with a zero, the contents of a
page whose memory has been reset.

Two points of the source decide most of what can go wrong and are kept as
they are. `newPage` asks the replacer for a victim in its first condition and
asks again in the branch that follows, and never takes the page it evicts out
of the page table. `fetchPage` ignores a replacer that has no victim to give:
the frame is then whatever the local variable happened to hold, a number that
the model takes as an argument.

`step` puts the five calls together with the one thing a client does on its
own, writing into a page that it holds.
-/

namespace MiniSql

/-- A correct allocator: the next page id, from the ids in use. -/
structure Allocator where
  /-- The id that `DiskManager::AllocatePage` hands out. -/
  next : Finset PageId → PageId
  /-- It is not in use. -/
  fresh : ∀ s, next s ∉ s
  /-- It is a page id. -/
  valid : ∀ s, 0 ≤ next s

/-- The disk manager, as a map from page ids to contents and the set of
allocated ids. -/
structure Disk (β : Type) where
  /-- What `ReadPage` reads. -/
  content : PageId → β
  /-- The ids that are not free. -/
  allocated : Finset PageId

/-- `Page`: the contents of a frame and its book-keeping. -/
structure Page (β : Type) where
  /-- `data_` -/
  data : β
  /-- `page_id_` -/
  pageId : PageId
  /-- `pin_count_` -/
  pinCount : ℤ
  /-- `is_dirty_` -/
  isDirty : Bool

/-- `BufferPoolManager`. -/
structure BufferPool (β : Type) where
  /-- `pool_size_` -/
  poolSize : ℕ
  /-- `pages_`, an array of `poolSize` frames -/
  pages : FrameId → Page β
  /-- `disk_manager_` -/
  disk : Disk β
  /-- `page_table_` -/
  pageTable : PageId → Option FrameId
  /-- `replacer_` -/
  replacer : LruReplacer
  /-- `free_list_`, the front first -/
  freeList : List FrameId

namespace BufferPool

variable {β : Type} [Zero β]

/-- The constructor: every frame is free and holds no page. -/
def init (poolSize : ℕ) : BufferPool β where
  poolSize := poolSize
  pages := fun _ => ⟨0, invalidPageId, 0, false⟩
  disk := ⟨fun _ => 0, ∅⟩
  pageTable := fun _ => none
  replacer := .init poolSize
  freeList := List.range poolSize

/-- Change one frame. -/
def setPage (s : BufferPool β) (f : FrameId) (page : Page β) : BufferPool β :=
  { s with pages := Function.update s.pages f page }

/-- `BufferPoolManager::FlushPage`. -/
def flushPage (s : BufferPool β) (p : PageId) : BufferPool β × Bool :=
  match s.pageTable p with
  | none => (s, false)
  | some f =>
    ({ s with
        disk := { s.disk with content := Function.update s.disk.content p (s.pages f).data }
        pages := Function.update s.pages f { s.pages f with isDirty := false } }, true)

/-- Step 2 of `FetchPage`: write the old contents of the frame back if they
are dirty. -/
def writeBack (s : BufferPool β) (f : FrameId) : BufferPool β :=
  if (s.pages f).isDirty then
    let s' := (s.flushPage (s.pages f).pageId).1
    s'.setPage f { s'.pages f with isDirty := false }
  else s

/-- Steps 3 and 4 of `FetchPage`: the frame stops being what it was, becomes
the frame of `p` and is filled from disk. -/
def install (s : BufferPool β) (f : FrameId) (p : PageId) : BufferPool β :=
  { s with
    pageTable := Function.update (Function.update s.pageTable (s.pages f).pageId none) p (some f)
    pages := Function.update s.pages f
      ⟨s.disk.content p, p, (s.pages f).pinCount + 1, (s.pages f).isDirty⟩ }

/-- `BufferPoolManager::FetchPage`, with the number that an uninitialised
`frame_id` holds. Stuck on a page id that the disk manager refuses and on a
frame outside the pool. -/
def fetchPage (garbage : FrameId) (s : BufferPool β) (p : PageId) :
    Option (BufferPool β × FrameId) :=
  match s.pageTable p with
  | some f =>
    some ({ s with
      replacer := s.replacer.pin f
      pages := Function.update s.pages f
        { s.pages f with pinCount := (s.pages f).pinCount + 1 } }, f)
  | none =>
    match s.freeList.getLast? with
    | some f =>
      let s' := { s with freeList := s.freeList.dropLast }
      if 0 ≤ p then some ((s'.writeBack f).install f p, f) else none
    | none =>
      let (r, v) := s.replacer.victim
      let f := v.getD garbage
      let s' := { s with replacer := r }
      if f < s.poolSize ∧ 0 ≤ p then some ((s'.writeBack f).install f p, f) else none

/-- Step 3 and 4 of `NewPage`: the frame becomes the frame of the new page,
with its memory zeroed. -/
def installNew (s : BufferPool β) (f : FrameId) (q : PageId) : BufferPool β :=
  { s with
    pageTable := Function.update s.pageTable q (some f)
    pages := Function.update s.pages f ⟨0, q, 1, true⟩ }

/-- `DiskManager::AllocatePage`. -/
def allocatePage (A : Allocator) (s : BufferPool β) : BufferPool β × PageId :=
  let q := A.next s.disk.allocated
  ({ s with disk := { s.disk with allocated := insert q s.disk.allocated } }, q)

/-- `BufferPoolManager::NewPage`: the new page id and its frame, or nothing.
Where the free list is empty the replacer is asked twice: the first victim is
lost if there is a second one. -/
def newPage (A : Allocator) (s : BufferPool β) : BufferPool β × Option (PageId × FrameId) :=
  match s.freeList.getLast? with
  | some f =>
    let (s', q) := s.allocatePage A
    ({ s' with freeList := s.freeList.dropLast }.installNew f q, some (q, f))
  | none =>
    match s.replacer.victim with
    | (_, none) => (s, none)
    | (r, some f) =>
      let (s', q) := s.allocatePage A
      match r.victim with
      | (r', some g) => ({ s' with replacer := r' }.installNew g q, some (q, g))
      | (r', none) => ({ s' with replacer := r' }.installNew f q, some (q, f))

/-- `BufferPoolManager::DeletePage`. -/
def deletePage (s : BufferPool β) (p : PageId) : BufferPool β × Bool :=
  let s' := { s with disk := { s.disk with allocated := s.disk.allocated.erase p } }
  match s.pageTable p with
  | none => (s', true)
  | some f =>
    if (s.pages f).pinCount ≠ 0 then (s', false)
    else
      ({ s' with
          pages := Function.update s.pages f
            { s.pages f with pageId := invalidPageId, data := 0 }
          pageTable := Function.update s.pageTable p none
          freeList := s.freeList ++ [f] }, true)

/-- The pin count that `UnpinPage` leaves. -/
def lessPin (n : ℤ) : ℤ := if 0 < n then n - 1 else n

/-- The first half of `UnpinPage`: give up one pin, and let the replacer know
when it was the last. -/
def unpinFrame (s : BufferPool β) (f : FrameId) : BufferPool β :=
  { s with
    pages := Function.update s.pages f
      { s.pages f with pinCount := lessPin (s.pages f).pinCount }
    replacer :=
      if lessPin (s.pages f).pinCount = 0 then s.replacer.unpin f else s.replacer }

/-- `BufferPoolManager::UnpinPage`. -/
def unpinPage (s : BufferPool β) (p : PageId) (isDirty : Bool) : BufferPool β × Bool :=
  match s.pageTable p with
  | none => (s, false)
  | some f =>
    if (s.pages f).pinCount < 0 then (s, false)
    else
      let s' := s.unpinFrame f
      if isDirty then
        (((s'.setPage f { s'.pages f with isDirty := true }).flushPage p).1, true)
      else (s', true)

/-- What a client does with a page that it holds: overwrite its contents. -/
def writePage (s : BufferPool β) (p : PageId) (data : β) : BufferPool β :=
  match s.pageTable p with
  | none => s
  | some f => s.setPage f { s.pages f with data := data }

end BufferPool

/-- The calls that a buffer pool answers, and the writes of its clients. A
fetch carries what an uninitialised local variable would hold. -/
inductive PoolCall (β : Type)
  | newPage
  | fetchPage (p : PageId) (garbage : FrameId)
  | unpinPage (p : PageId) (isDirty : Bool)
  | flushPage (p : PageId)
  | deletePage (p : PageId)
  | writePage (p : PageId) (data : β)

/-- The answers: a page with its frame, a frame, or a truth value. -/
inductive PoolAnswer
  | page (result : Option (PageId × FrameId))
  | frame (f : FrameId)
  | bool (b : Bool)
deriving DecidableEq

namespace BufferPool

variable {β : Type} [Zero β]

/-- One call. -/
def step (A : Allocator) (s : BufferPool β) : PoolCall β → Option (BufferPool β × PoolAnswer)
  | .newPage => some ((s.newPage A).1, .page (s.newPage A).2)
  | .fetchPage p garbage => (s.fetchPage garbage p).map (fun r => (r.1, .frame r.2))
  | .unpinPage p d => some ((s.unpinPage p d).1, .bool (s.unpinPage p d).2)
  | .flushPage p => some ((s.flushPage p).1, .bool (s.flushPage p).2)
  | .deletePage p => some ((s.deletePage p).1, .bool (s.deletePage p).2)
  | .writePage p data => some (s.writePage p data, .bool true)

/-- What a client that fetched `p` would read: the frame of `p` if it is
resident, else the disk. -/
def contentOf (s : BufferPool β) (p : PageId) : β :=
  match s.pageTable p with
  | none => s.disk.content p
  | some f => (s.pages f).data

end BufferPool

end MiniSql
