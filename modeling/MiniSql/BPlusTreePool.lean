import MiniSql.BPlusTree
import MiniSql.IndexIterator
import MiniSql.IndexRootsPage
import MiniSql.PoolCalls

/-!
# The B+ tree and its buffer pool

The functions of `index/b_plus_tree.cpp` once more, now with what the module
`BPlusTree` leaves out: every page that is fetched, also the ones that are not
looked at, every `UnpinPage` and `DeletePage` with the id that it is given,
the uses of the pointers in between, and the page of the index roots that
`UpdateRootPageId` writes.

The code changes its pages in place, so a pointer is read as what the tree has
at that page at that time. A frame that holds no page of the tree (page 0 of
the catalog, to which the last leaf points, or the frame of a page that has
been deleted) shows something else, about which nothing is assumed
(`TreeEnv.foreign`). Frames never run out.
-/

namespace MiniSql

open PoolCalls

/-- What surrounds a tree. -/
structure TreeEnv (K V : Type) extends TreeConfig where
  /-- `index_id_` -/
  indexId : ℕ
  /-- What the frame of a page that is not one of the tree shows, read as a
  leaf, after the events up to then. -/
  foreign : List (Event PageId) → PageId → LeafPage K V

/-- `BPlusTree`, with the page of the index roots and the calls that have been
made to the buffer pool. -/
structure PooledTree (K V : Type) where
  /-- The tree and its pages. -/
  tree : BPlusTree K V
  /-- Page 1. -/
  indexRoots : IndexRootsPage
  /-- The calls and the uses of pointers. -/
  log : List (Event PageId)

/-- The page id of the page of the index roots. -/
def indexRootsPageId : PageId := 1

/-- Code of the tree. -/
abbrev TreeM (K V : Type) := StateT (PooledTree K V) Option

namespace PooledTree

variable {K V : Type}

/-! ## The buffer pool -/

/-- Something happens to the buffer pool. -/
def emit (e : Event PageId) : TreeM K V PUnit := modify (fun s => { s with log := s.log ++ [e] })

/-- The tree is changed. -/
def update (f : BPlusTree K V → BPlusTree K V) : TreeM K V PUnit :=
  modify (fun s => { s with tree := f s.tree })

/-- `FetchPage`. The disk manager asserts that it is a page id. -/
def fetchPage (pageId : PageId) : TreeM K V (Pointer PageId) := do
  (if 0 ≤ pageId then emit (.fetch pageId) else failure)
  let s ← get
  return ⟨pageId, s.log.length⟩

/-- `UnpinPage`. -/
def unpinPage (pageId : PageId) : TreeM K V PUnit := emit (.unpin pageId)

/-- `DeletePage`. -/
def deletePage (pageId : PageId) : TreeM K V PUnit := do
  emit (.delete pageId)
  update (fun t => t.deletePage pageId)

/-- `NewPage`, and the `Init` of the page. -/
def newPage (env : TreeEnv K V) (init : PageId → BPlusTreePage K V) :
    TreeM K V (Pointer PageId) := do
  let s ← get
  let (pageId, tree) := s.tree.newPage env.toTreeConfig
  set { s with tree := tree.write (init pageId), log := s.log ++ [Event.new pageId] }
  let pointer : Pointer PageId := ⟨pageId, s.log.length + 1⟩
  emit (.use pointer)
  return pointer

/-- A page of the tree behind a pointer. -/
def deref (p : Pointer PageId) : TreeM K V (BPlusTreePage K V) := do
  emit (.use p)
  let s ← get
  s.tree.pages p.page

/-- A leaf behind a pointer. -/
def derefLeaf (p : Pointer PageId) : TreeM K V (LeafPage K V) := do
  match ← deref p with
  | .leaf page => return page
  | .internal _ => failure

/-- An internal page behind a pointer. -/
def derefInternal (p : Pointer PageId) : TreeM K V (InternalPage K) := do
  match ← deref p with
  | .leaf _ => failure
  | .internal page => return page

/-- Whatever is behind a pointer, read as a leaf. -/
def derefAsLeaf (env : TreeEnv K V) (p : Pointer PageId) : TreeM K V (LeafPage K V) := do
  emit (.use p)
  let s ← get
  match s.tree.pages p.page with
  | some (.leaf page) => return page
  | some (.internal _) => failure
  | none => return env.foreign s.log p.page

/-- `GetPageId`, of whatever is behind a pointer. -/
def getPageId (env : TreeEnv K V) (p : Pointer PageId) : TreeM K V PageId := do
  emit (.use p)
  let s ← get
  match s.tree.pages p.page with
  | some page => return page.pageId
  | none => return (env.foreign s.log p.page).pageId

/-- `SetParentPageId`, of the page behind a pointer. -/
def setParentPageId (p : Pointer PageId) (parent : PageId) : TreeM K V PUnit := do
  emit (.use p)
  let s ← get
  let tree ← s.tree.setParent parent p.page
  set { s with tree := tree }

/-- `UpdateRootPageId`. -/
def updateRootPageId (env : TreeEnv K V) (insertRecord : Bool) : TreeM K V PUnit := do
  let rootPage ← fetchPage indexRootsPageId
  emit (.use rootPage)
  let s ← get
  let indexRoots ←
    (if insertRecord then (s.indexRoots.insert env.indexId s.tree.rootPageId).map Prod.fst
      else some (s.indexRoots.update env.indexId s.tree.rootPageId).1)
  set { s with indexRoots := indexRoots }
  unpinPage indexRootsPageId

variable [LinearOrder K]

/-! ## Search -/

/-- The loop of `FindLeafPage`. -/
def findLeafLoop (key : K) (leftMost : Bool) : ℕ → Pointer PageId → TreeM K V (Pointer PageId)
  | 0, _ => failure
  | rounds + 1, pointer => do
    match ← deref pointer with
    | .leaf _ => do
      unpinPage pointer.page
      return pointer
    | .internal page => do
      let nextPageId ← (if leftMost then page.valueAt 0 else page.lookup key)
      unpinPage pointer.page
      let pointer ← fetchPage nextPageId
      findLeafLoop key leftMost rounds pointer

/-- `FindLeafPage`. -/
def findLeafPage (key : K) (leftMost : Bool) : TreeM K V (Option (Pointer PageId)) := do
  let s ← get
  if s.tree.isEmpty then return none
  else do
    let pointer ← fetchPage s.tree.rootPageId
    let leaf ← findLeafLoop key leftMost s.tree.allocated.length pointer
    return some leaf

/-- `GetValue`. -/
def getValue (env : TreeEnv K V) (key : K) : TreeM K V (Option V) := do
  match ← findLeafPage key false with
  | none => return none
  | some pointer => do
    let leaf ← derefLeaf pointer
    unpinPage (← getPageId env pointer)
    return leaf.lookup key

/-! ## Insertion -/

/-- `StartNewTree`. -/
def startNewTree (env : TreeEnv K V) (key : K) (value : V) : TreeM K V PUnit := do
  let root ← newPage env (fun id => .leaf ⟨id, invalidPageId, 0, env.leafMaxSize, []⟩)
  update (fun t => { t with rootPageId := root.page })
  updateRootPageId env true
  let page ← derefLeaf root
  let page ← page.insert key value
  update (·.write (.leaf page))
  unpinPage root.page

/-- `Split` of a leaf: the new page. -/
def splitLeaf (env : TreeEnv K V) (node : Pointer PageId) : TreeM K V (Pointer PageId) := do
  let page ← derefLeaf node
  let new ← newPage env (fun id => .leaf ⟨id, page.parentPageId, 0, env.leafMaxSize, []⟩)
  let recipient ← derefLeaf new
  let page ← derefLeaf node
  let (page, recipient) ← page.moveHalfTo recipient
  update (fun t => (t.write (.leaf page)).write (.leaf recipient))
  return new

/-- The loop of `MoveHalfTo` of an internal page, over the children that move:
each of them gets a new parent. -/
def adoptHalf (node recipient : Pointer PageId) (recipientId : PageId) :
    List PageId → TreeM K V PUnit
  | [] => pure ⟨⟩
  | child :: children => do
    emit (.use node)
    emit (.use recipient)
    let page ← fetchPage child
    setParentPageId page recipientId
    unpinPage child
    adoptHalf node recipient recipientId children

/-- `Split` of an internal page: the new page. -/
def splitInternal (env : TreeEnv K V) (node : Pointer PageId) : TreeM K V (Pointer PageId) := do
  let page ← derefInternal node
  let new ← newPage env (fun id => .internal ⟨id, page.parentPageId, env.internalMaxSize, []⟩)
  let recipient ← derefInternal new
  let page ← derefInternal node
  let (page, recipient) ← page.moveHalfTo recipient
  update (fun t => (t.write (.internal page)).write (.internal recipient))
  adoptHalf node new recipient.pageId (recipient.array.map Prod.snd)
  return new

section InsertIntoParent

variable [Inhabited K]

/-- `InsertIntoParent`, of a root: a new root above the two pages. -/
def populateNewRoot (env : TreeEnv K V) (oldNode : Pointer PageId) (key : K)
    (newNode : Pointer PageId) : TreeM K V PUnit := do
  let newRoot ← newPage env (fun id => .internal ⟨id, invalidPageId, env.internalMaxSize, []⟩)
  update (fun t => { t with rootPageId := newRoot.page })
  let oldId ← getPageId env oldNode
  let newId ← getPageId env newNode
  let root ← derefInternal newRoot
  update (·.write (.internal { root with array := [(default, oldId), (key, newId)] }))
  setParentPageId oldNode newRoot.page
  setParentPageId newNode newRoot.page
  updateRootPageId env false
  unpinPage (← getPageId env newNode)
  unpinPage (← getPageId env newRoot)

/-- `InsertIntoParent`. -/
def insertIntoParent (env : TreeEnv K V) :
    ℕ → Pointer PageId → K → Pointer PageId → TreeM K V PUnit
  | 0, _, _, _ => failure
  | rounds + 1, oldNode, key, newNode => do
    let old ← deref oldNode
    if old.isRootPage then populateNewRoot env oldNode key newNode
    else do
      let parentPageId := old.parentPageId
      let parent ← fetchPage parentPageId
      setParentPageId newNode parentPageId
      unpinPage (← getPageId env newNode)
      let oldId ← getPageId env oldNode
      let newId ← getPageId env newNode
      let page ← derefInternal parent
      let page ← page.insertNodeAfter oldId key newId
      update (·.write (.internal page))
      (if page.maxSize < page.size then do
        let new ← splitInternal env parent
        let page ← derefInternal new
        let key ← page.keyAt 0
        insertIntoParent env rounds parent key new
      else pure ⟨⟩)
      unpinPage parentPageId

/-- `InsertIntoLeaf`. -/
def insertIntoLeaf (env : TreeEnv K V) (key : K) (value : V) : TreeM K V Bool := do
  let leaf ← (← findLeafPage key false)
  let page ← derefLeaf leaf
  if (page.lookup key).isSome then do
    unpinPage (← getPageId env leaf)
    return false
  else do
    let page ← page.insert key value
    update (·.write (.leaf page))
    (if page.maxSize < page.size then do
      let s ← get
      let new ← splitLeaf env leaf
      let page ← derefLeaf new
      let key ← page.keyAt 0
      insertIntoParent env s.tree.allocated.length leaf key new
    else pure ⟨⟩)
    unpinPage (← getPageId env leaf)
    return true

/-- `Insert`. -/
def insert (env : TreeEnv K V) (key : K) (value : V) : TreeM K V Bool := do
  let s ← get
  if s.tree.isEmpty then do
    startNewTree env key value
    return true
  else insertIntoLeaf env key value

end InsertIntoParent

/-! ## Removal -/

/-- `AdjustRoot`. -/
def adjustRoot (env : TreeEnv K V) (oldRoot : Pointer PageId) : TreeM K V PUnit := do
  match ← deref oldRoot with
  | .leaf page =>
    if page.size = 0 then do
      unpinPage (← getPageId env oldRoot)
      deletePage (← getPageId env oldRoot)
      update (fun t => { t with rootPageId := invalidPageId })
      updateRootPageId env false
    else failure
  | .internal page =>
    if page.size = 1 then do
      let newRootId ← page.removeAndReturnOnlyChild
      update (fun t => { t with rootPageId := newRootId })
      updateRootPageId env false
      let newRoot ← fetchPage newRootId
      setParentPageId newRoot invalidPageId
      unpinPage newRootId
      unpinPage (← getPageId env oldRoot)
      deletePage (← getPageId env oldRoot)
    else pure ⟨⟩

/-- `FindSibling`: the sibling, and whether it is after the node. -/
def findSibling (env : TreeEnv K V) (node : Pointer PageId) :
    TreeM K V (Pointer PageId × Bool) := do
  let page ← deref node
  let parent ← fetchPage page.parentPageId
  let nodeId ← getPageId env node
  let parentPage ← derefInternal parent
  let index ← parentPage.valueIndex nodeId
  unpinPage (← getPageId env parent)
  let siblingId ← parentPage.valueAt (if index = 0 then 1 else index - 1)
  let sibling ← fetchPage siblingId
  unpinPage (← getPageId env parent)
  return (sibling, index = 0)

/-- A child gets an internal page as its parent that has got it from another
one: what `CopyLastFrom` and `CopyFirstFrom` do, and each round of the loop of
`CopyNFrom`. -/
def adoptOne (env : TreeEnv K V) (recipient : Pointer PageId) (child : PageId) :
    TreeM K V PUnit := do
  let page ← fetchPage child
  let recipientId ← getPageId env recipient
  setParentPageId page recipientId
  unpinPage (← getPageId env page)

/-- The loop of `CopyNFrom` of an internal page, over the children that it
gets. -/
def adoptAll (env : TreeEnv K V) (recipient : Pointer PageId) : List PageId → TreeM K V PUnit
  | [] => pure ⟨⟩
  | child :: children => do
    adoptOne env recipient child
    adoptAll env recipient children

/-- `Coalesce`, without the step to the parent: the parent page as it is
then. -/
def coalesce (env : TreeEnv K V) (neighbor node parent : Pointer PageId) (index : ℕ) :
    TreeM K V (InternalPage K) := do
  let parentPage ← derefInternal parent
  let middleKey ← parentPage.keyAt index
  (match ← deref node with
    | .leaf page => do
      let recipient ← derefLeaf neighbor
      update (·.write (.leaf (page.moveAllTo recipient)))
    | .internal page => do
      let recipient ← derefInternal neighbor
      update (·.write (.internal (page.moveAllTo recipient middleKey)))
      adoptAll env neighbor (page.array.map Prod.snd))
  let nodeId ← getPageId env node
  unpinPage nodeId
  deletePage nodeId
  unpinPage (← getPageId env neighbor)
  let parentPage ← derefInternal parent
  let parentPage ← parentPage.remove index
  update (·.write (.internal parentPage))
  return parentPage

/-- `Coalesce` of the second one of two siblings into the first one. -/
def coalesceSecond (env : TreeEnv K V) (first second parent : Pointer PageId) :
    TreeM K V (InternalPage K) := do
  let secondId ← getPageId env second
  let parentPage ← derefInternal parent
  coalesce env first second parent (← parentPage.valueIndex secondId)

/-- The pages that `Redistribute` looks up in the row of the leaves: the leaf
for a key, the one after it, and the one after that. -/
def fetchAround (env : TreeEnv K V) (key : K) :
    TreeM K V (Pointer PageId × Pointer PageId × Pointer PageId) := do
  let pre ← (← findLeafPage key false)
  let page ← derefLeaf pre
  let middle ← fetchPage page.nextPageId
  let page ← derefAsLeaf env middle
  let aft ← fetchPage page.nextPageId
  return (pre, middle, aft)

/-- The end of each case of `Redistribute`. -/
def unpinAround (env : TreeEnv K V) (parent middle aft : Pointer PageId) : TreeM K V PUnit := do
  unpinPage (← getPageId env parent)
  unpinPage (← getPageId env middle)
  unpinPage (← getPageId env aft)

/-- `Redistribute`, for two leaves. -/
def redistributeLeaf (env : TreeEnv K V) (neighbor node : Pointer PageId) (index : ℕ) :
    TreeM K V PUnit := do
  if index = 0 then do
    let page ← derefLeaf node
    let (_pre, middle, aft) ← fetchAround env (← page.keyAt (page.size - 1))
    let neighborPage ← derefLeaf neighbor
    let parent ← fetchPage neighborPage.parentPageId
    let neighborId ← getPageId env neighbor
    let parentPage ← derefInternal parent
    let neighborIndex ← parentPage.valueIndex neighborId
    let middlePage ← derefAsLeaf env middle
    let parentPage ← parentPage.setKeyAt neighborIndex (← middlePage.keyAt 1)
    update (·.write (.internal parentPage))
    let neighborPage ← derefLeaf neighbor
    let page ← derefLeaf node
    let (neighborPage, page) ← neighborPage.moveFirstToEndOf page
    update (fun t => (t.write (.leaf neighborPage)).write (.leaf page))
    unpinAround env parent middle aft
  else do
    let neighborPage ← derefLeaf neighbor
    let (pre, middle, aft) ← fetchAround env (← neighborPage.keyAt (neighborPage.size - 1))
    let neighborPage ← derefLeaf neighbor
    let parent ← fetchPage neighborPage.parentPageId
    let nodeId ← getPageId env node
    let parentPage ← derefInternal parent
    let nodeIndex ← parentPage.valueIndex nodeId
    let prePage ← derefLeaf pre
    let parentPage ← parentPage.setKeyAt nodeIndex (← prePage.keyAt (prePage.size - 1))
    update (·.write (.internal parentPage))
    let neighborPage ← derefLeaf neighbor
    let page ← derefLeaf node
    let (neighborPage, page) ← neighborPage.moveLastToFrontOf page
    update (fun t => (t.write (.leaf neighborPage)).write (.leaf page))
    unpinAround env parent middle aft

/-- `Redistribute`, for two internal pages. -/
def redistributeInternal (env : TreeEnv K V) (neighbor node : Pointer PageId) (index : ℕ) :
    TreeM K V PUnit := do
  if index = 0 then do
    let page ← derefInternal node
    let (_pre, middle, aft) ← fetchAround env (← page.keyAt (page.size - 1))
    let middlePage ← derefAsLeaf env middle
    let middleKey ← middlePage.keyAt 0
    let page ← derefInternal node
    let parent ← fetchPage page.parentPageId
    let neighborId ← getPageId env neighbor
    let parentPage ← derefInternal parent
    let neighborIndex ← parentPage.valueIndex neighborId
    let aftPage ← derefAsLeaf env aft
    let parentPage ← parentPage.setKeyAt neighborIndex (← aftPage.keyAt 0)
    update (·.write (.internal parentPage))
    let neighborPage ← derefInternal neighbor
    let child ← neighborPage.valueAt 0
    let page ← derefInternal node
    let (neighborPage, page) ← neighborPage.moveFirstToEndOf page middleKey
    update (fun t => (t.write (.internal neighborPage)).write (.internal page))
    adoptOne env node child
    unpinAround env parent middle aft
  else do
    let neighborPage ← derefInternal neighbor
    let (pre, middle, aft) ← fetchAround env (← neighborPage.keyAt (neighborPage.size - 1))
    let middlePage ← derefAsLeaf env middle
    let middleKey ← middlePage.keyAt 0
    let page ← derefInternal node
    let parent ← fetchPage page.parentPageId
    let nodeId ← getPageId env node
    let parentPage ← derefInternal parent
    let nodeIndex ← parentPage.valueIndex nodeId
    let prePage ← derefLeaf pre
    let parentPage ← parentPage.setKeyAt nodeIndex (← prePage.keyAt 0)
    update (·.write (.internal parentPage))
    let neighborPage ← derefInternal neighbor
    let child ← neighborPage.valueAt (neighborPage.size - 1)
    let page ← derefInternal node
    let (neighborPage, page) ← neighborPage.moveLastToFrontOf page middleKey
    update (fun t => (t.write (.internal neighborPage)).write (.internal page))
    adoptOne env node child
    unpinAround env parent middle aft

/-- `Redistribute`. -/
def redistribute (env : TreeEnv K V) (neighbor node : Pointer PageId) (index : ℕ) :
    TreeM K V PUnit := do
  (match ← deref node with
    | .leaf _ => redistributeLeaf env neighbor node index
    | .internal _ => redistributeInternal env neighbor node index)
  unpinPage (← getPageId env node)
  unpinPage (← getPageId env neighbor)

/-- `CoalesceOrRedistribute`. -/
def coalesceOrRedistribute (env : TreeEnv K V) : ℕ → Pointer PageId → TreeM K V PUnit
  | 0, _ => failure
  | rounds + 1, node => do
    let page ← deref node
    if page.isRootPage then adjustRoot env node
    else do
      let (sibling, after) ← findSibling env node
      let page ← deref node
      let parent ← fetchPage page.parentPageId
      let siblingPage ← deref sibling
      if page.size + siblingPage.size ≤ page.maxSize then do
        -- the page that goes is the second one of the two
        let first := if after then node else sibling
        let second := if after then sibling else node
        let parentPage ← coalesceSecond env first second parent
        (if parentPage.size < (BPlusTreePage.internal (V := V) parentPage).minSize then
          coalesceOrRedistribute env rounds parent
        else pure ⟨⟩)
        unpinPage (← getPageId env parent)
      else do
        let nodeId ← getPageId env node
        let parentPage ← derefInternal parent
        redistribute env sibling node (← parentPage.valueIndex nodeId)
        unpinPage (← getPageId env parent)

/-- `Remove`, up to the step to `CoalesceOrRedistribute`: whether the leaf is too
small then. -/
def removeFromLeaf (env : TreeEnv K V) (key : K) (target : Pointer PageId) : TreeM K V Bool := do
  let page ← derefLeaf target
  (if page.keyIndex key = 0 ∧ page.parentPageId ≠ invalidPageId then do
    let parent ← fetchPage page.parentPageId
    let targetId ← getPageId env target
    let parentPage ← derefInternal parent
    let pageIndex ← parentPage.valueIndex targetId
    let page ← derefLeaf target
    let parentPage ← parentPage.setKeyAt pageIndex (← page.keyAt 1)
    update (·.write (.internal parentPage))
    let page ← derefLeaf target
    unpinPage page.parentPageId
  else pure ⟨⟩)
  let page ← derefLeaf target
  let page := page.removeAndDeleteRecord key
  update (·.write (.leaf page))
  return page.size < (BPlusTreePage.leaf page).minSize

/-- `Remove`. -/
def remove (env : TreeEnv K V) (key : K) : TreeM K V PUnit := do
  let s ← get
  if s.tree.isEmpty then pure ⟨⟩
  else do
    let target ← (← findLeafPage key false)
    let small ← removeFromLeaf env key target
    (if small then do
      let s ← get
      coalesceOrRedistribute env s.tree.allocated.length target
    else pure ⟨⟩)
    unpinPage (← getPageId env target)

/-! ## Iterators -/

/-- `Begin`; null where the tree is empty. -/
def begin [Inhabited K] : TreeM K V (Option IndexIterator) := do
  let startLeaf ← findLeafPage (default : K) true
  return startLeaf.map (fun leaf => ⟨leaf.page, 0⟩)

/-- `Begin`, from a key on. -/
def beginAt (key : K) : TreeM K V (Option IndexIterator) := do
  match ← findLeafPage key false with
  | none => return none
  | some startLeaf => do
    let page ← derefLeaf startLeaf
    return some ⟨startLeaf.page, page.keyIndex key⟩

/-- `End`. -/
def endOf : TreeM K V IndexIterator := do
  let s ← get
  let rootPage ← fetchPage s.tree.rootPageId
  let root ← deref rootPage
  let endKey ← BPlusTree.lastKey root
  let endLeaf ← (← findLeafPage endKey false)
  unpinPage s.tree.rootPageId
  let page ← derefLeaf endLeaf
  return ⟨endLeaf.page, (page.size : ℤ) - 1⟩

end PooledTree

end MiniSql
