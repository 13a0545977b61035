import MiniSql.BPlusTreePage
import Mathlib.Logic.Function.Basic

/-!
# The B+ tree

`BPlusTree` of `index/b_plus_tree.cpp`, over a faithful page store that never
runs out of pages: a page that has been written is read back, and a new page
has an id that is not in use. So pins and the header page that records the root
are left out, and with them the pages that are fetched and not looked at.

A function gives `none` where an assertion fails, where it reads a page that
is not a page of the tree, and where the loop along the tree takes more rounds
than there are pages.
-/

namespace MiniSql

/-- What a tree is built with: the sizes of its pages, and the ids that
`AllocatePage` hands out next to those in use. -/
structure TreeConfig where
  /-- `leaf_max_size_` -/
  leafMaxSize : ℕ
  /-- `internal_max_size_` -/
  internalMaxSize : ℕ
  /-- `AllocatePage` -/
  allocatePage : List PageId → PageId
  /-- A new id is not in use. -/
  fresh : ∀ ids, allocatePage ids ∉ ids
  /-- It is a page id. -/
  valid : ∀ ids, 0 ≤ allocatePage ids

theorem le_foldl_max (ids : List PageId) (a : PageId) :
    a ≤ ids.foldl max a ∧ ∀ i ∈ ids, i ≤ ids.foldl max a := by
  induction ids generalizing a with
  | nil => exact ⟨le_rfl, nofun⟩
  | cons j ids ih =>
    obtain ⟨ha, hall⟩ := ih (max a j)
    refine ⟨(le_max_left a j).trans ha, fun i hi => ?_⟩
    rcases List.mem_cons.mp hi with rfl | hi
    · exact (le_max_right a i).trans ha
    · exact hall i hi

/-- Pages of the given sizes, and an allocation that takes the id above those in
use. -/
def TreeConfig.above (leafMaxSize internalMaxSize : ℕ) : TreeConfig where
  leafMaxSize := leafMaxSize
  internalMaxSize := internalMaxSize
  allocatePage ids := ids.foldl max 0 + 1
  fresh ids h := absurd ((le_foldl_max ids 0).2 _ h) (not_le.mpr (lt_add_one _))
  valid ids := (le_foldl_max ids 0).1.trans (lt_add_one _).le

/-- `BPlusTree`, with the pages that it has in the page store. -/
structure BPlusTree (K V : Type) where
  /-- `root_page_id_` -/
  rootPageId : PageId
  /-- The pages of the tree. -/
  pages : PageId → Option (BPlusTreePage K V)
  /-- The ids in use. -/
  allocated : List PageId

namespace BPlusTree

variable {K V : Type}

/-- A new tree. The ids 0 and 1 are in use, by the pages of the catalog and of the index roots:
these are no pages of the tree, and to read one of them gives `none`. -/
def empty : BPlusTree K V := ⟨invalidPageId, fun _ => none, [0, 1]⟩

/-- `IsEmpty`. -/
def isEmpty (t : BPlusTree K V) : Bool := t.rootPageId = invalidPageId

/-! ## Access to the pages -/

/-- `FetchPage`, of a leaf. -/
def fetchLeaf (t : BPlusTree K V) (id : PageId) : Option (LeafPage K V) :=
  match t.pages id with
  | some (.leaf p) => some p
  | _ => none

/-- `FetchPage`, of an internal page. -/
def fetchInternal (t : BPlusTree K V) (id : PageId) : Option (InternalPage K) :=
  match t.pages id with
  | some (.internal p) => some p
  | _ => none

/-- The tree with a page written. -/
def write (t : BPlusTree K V) (p : BPlusTreePage K V) : BPlusTree K V :=
  { t with pages := Function.update t.pages p.pageId (some p) }

/-- `SetParentPageId` of a page. -/
def setParent (t : BPlusTree K V) (parent child : PageId) : Option (BPlusTree K V) :=
  (t.pages child).map (fun p => t.write (p.setParentPageId parent))

/-- `SetParentPageId` of one page after the other. -/
def adopt (t : BPlusTree K V) (parent : PageId) (children : List PageId) : Option (BPlusTree K V) :=
  children.foldlM (fun t child => t.setParent parent child) t

/-- `NewPage`. -/
def newPage (t : BPlusTree K V) (cfg : TreeConfig) : PageId × BPlusTree K V :=
  (cfg.allocatePage t.allocated,
    { t with allocated := cfg.allocatePage t.allocated :: t.allocated })

/-- `DeletePage`. -/
def deletePage (t : BPlusTree K V) (id : PageId) : BPlusTree K V :=
  { t with
    pages := Function.update t.pages id none
    allocated := t.allocated.filter (fun i => i ≠ id) }

variable [LinearOrder K]

/-! ## Search -/

/-- The loop of `FindLeafPage`, from a page on. -/
def findLeafFrom (t : BPlusTree K V) (key : K) (leftMost : Bool) :
    ℕ → PageId → Option (LeafPage K V)
  | 0, _ => none
  | rounds + 1, id =>
    match t.pages id with
    | none => none
    | some (.leaf p) => some p
    | some (.internal p) =>
      (if leftMost then p.valueAt 0 else p.lookup key).bind (findLeafFrom t key leftMost rounds)

/-- `FindLeafPage`, of a tree that is not empty. -/
def findLeafPage (t : BPlusTree K V) (key : K) (leftMost : Bool) : Option (LeafPage K V) :=
  findLeafFrom t key leftMost t.allocated.length t.rootPageId

/-- `GetValue`. -/
def getValue (t : BPlusTree K V) (key : K) : Option (Option V) :=
  if t.isEmpty then some none else (t.findLeafPage key false).map (fun leaf => leaf.lookup key)

/-! ## Insertion -/

/-- `StartNewTree`. `Init` leaves the next page id of a leaf as it is, and the
memory of a new page is zeroed. -/
def startNewTree (t : BPlusTree K V) (cfg : TreeConfig) (key : K) (value : V) :
    Option (BPlusTree K V) := do
  let (id, t) := t.newPage cfg
  let root ← (⟨id, invalidPageId, 0, cfg.leafMaxSize, []⟩ : LeafPage K V).insert key value
  return { t with rootPageId := id }.write (.leaf root)

/-- `Split` of a leaf: the new page. -/
def splitLeaf (t : BPlusTree K V) (cfg : TreeConfig) (node : LeafPage K V) :
    Option (BPlusTree K V × LeafPage K V) := do
  let (id, t) := t.newPage cfg
  let (node, new) ← node.moveHalfTo ⟨id, node.parentPageId, 0, cfg.leafMaxSize, []⟩
  return ((t.write (.leaf node)).write (.leaf new), new)

/-- `Split` of an internal page: the new page. -/
def splitInternal (t : BPlusTree K V) (cfg : TreeConfig) (node : InternalPage K) :
    Option (BPlusTree K V × InternalPage K) := do
  let (id, t) := t.newPage cfg
  let (node, new) ← node.moveHalfTo ⟨id, node.parentPageId, cfg.internalMaxSize, []⟩
  let t ← ((t.write (.internal node)).write (.internal new)).adopt id (new.array.map Prod.snd)
  return (t, new)

variable [Inhabited K]

/-- `InsertIntoParent`. The first key of a new root is the one that zeroed
memory holds. -/
def insertIntoParent (cfg : TreeConfig) :
    ℕ → BPlusTree K V → PageId → K → PageId → Option (BPlusTree K V)
  | 0, _, _, _, _ => none
  | rounds + 1, t, oldNode, key, newNode => do
    let old ← t.pages oldNode
    if old.isRootPage then
      let (id, t) := t.newPage cfg
      let root : InternalPage K :=
        ⟨id, invalidPageId, cfg.internalMaxSize, [(default, oldNode), (key, newNode)]⟩
      ({ t with rootPageId := id }.write (.internal root)).adopt id [oldNode, newNode]
    else
      let parent ← t.fetchInternal old.parentPageId
      let t ← t.setParent old.parentPageId newNode
      let parent ← parent.insertNodeAfter oldNode key newNode
      let t := t.write (.internal parent)
      if parent.maxSize < parent.size then
        let (t, new) ← t.splitInternal cfg parent
        let key ← new.keyAt 0
        insertIntoParent cfg rounds t parent.pageId key new.pageId
      else some t

/-- `InsertIntoLeaf`. -/
def insertIntoLeaf (t : BPlusTree K V) (cfg : TreeConfig) (key : K) (value : V) :
    Option (BPlusTree K V × Bool) := do
  let leaf ← t.findLeafPage key false
  if (leaf.lookup key).isSome then
    return (t, false)
  else
    let leaf ← leaf.insert key value
    let t := t.write (.leaf leaf)
    if leaf.maxSize < leaf.size then
      let (t', new) ← t.splitLeaf cfg leaf
      let first ← new.keyAt 0
      let t' ← insertIntoParent cfg t.allocated.length t' leaf.pageId first new.pageId
      return (t', true)
    else
      return (t, true)

/-- `Insert`. -/
def insert (t : BPlusTree K V) (cfg : TreeConfig) (key : K) (value : V) :
    Option (BPlusTree K V × Bool) :=
  if t.isEmpty then (t.startNewTree cfg key value).map (fun t => (t, true))
  else t.insertIntoLeaf cfg key value

omit [Inhabited K]

/-! ## Removal -/

/-- `AdjustRoot`. -/
def adjustRoot (t : BPlusTree K V) (root : PageId) : Option (BPlusTree K V) := do
  match ← t.pages root with
  | .leaf p =>
    if p.size = 0 then some { t.deletePage root with rootPageId := invalidPageId } else none
  | .internal p =>
    if p.size = 1 then
      let child ← p.removeAndReturnOnlyChild
      let t ← { t with rootPageId := child }.setParent invalidPageId child
      return t.deletePage root
    else some t

/-- `FindSibling`: the page before the node, or the one after it where there is
none; the answer says whether it is after. -/
def findSibling (parent : InternalPage K) (node : PageId) : Option (PageId × Bool) := do
  let index ← parent.valueIndex node
  if index = 0 then
    return (← parent.valueAt 1, true)
  else
    return (← parent.valueAt (index - 1), false)

/-- `Coalesce`, up to the step to the parent: the entries of the page go to the
one before it, and the page goes. The answer is the parent. -/
def coalesce (t : BPlusTree K V) (neighbor node : BPlusTreePage K V) (parent : InternalPage K)
    (index : ℕ) : Option (BPlusTree K V × InternalPage K) := do
  let middleKey ← parent.keyAt index
  let t ← match neighbor, node with
    | .leaf neighbor, .leaf node => some (t.write (.leaf (node.moveAllTo neighbor)))
    | .internal neighbor, .internal node =>
      (t.write (.internal (node.moveAllTo neighbor middleKey))).adopt neighbor.pageId
        (node.array.map Prod.snd)
    | _, _ => none
  let parent ← parent.remove index
  return ((t.deletePage node.pageId).write (.internal parent), parent)

/-- `Redistribute`, for two leaves. -/
def redistributeLeaf (t : BPlusTree K V) (neighbor node : LeafPage K V) (index : ℕ) :
    Option (BPlusTree K V) := do
  if index = 0 then
    let last ← node.keyAt (node.size - 1)
    let pre ← t.findLeafPage last false
    let middle ← t.fetchLeaf pre.nextPageId
    let key ← middle.keyAt 1
    let parent ← t.fetchInternal neighbor.parentPageId
    let parent ← parent.setKeyAt (← parent.valueIndex neighbor.pageId) key
    let (neighbor, node) ← neighbor.moveFirstToEndOf node
    return ((t.write (.internal parent)).write (.leaf neighbor)).write (.leaf node)
  else
    let last ← neighbor.keyAt (neighbor.size - 1)
    let pre ← t.findLeafPage last false
    let key ← pre.keyAt (pre.size - 1)
    let parent ← t.fetchInternal neighbor.parentPageId
    let parent ← parent.setKeyAt (← parent.valueIndex node.pageId) key
    let (neighbor, node) ← neighbor.moveLastToFrontOf node
    return ((t.write (.internal parent)).write (.leaf neighbor)).write (.leaf node)

/-- `Redistribute`, for two internal pages. -/
def redistributeInternal (t : BPlusTree K V) (neighbor node : InternalPage K) (index : ℕ) :
    Option (BPlusTree K V) := do
  if index = 0 then
    let last ← node.keyAt (node.size - 1)
    let pre ← t.findLeafPage last false
    let middle ← t.fetchLeaf pre.nextPageId
    let aft ← t.fetchLeaf middle.nextPageId
    let middleKey ← middle.keyAt 0
    let parent ← t.fetchInternal node.parentPageId
    let key ← aft.keyAt 0
    let parent ← parent.setKeyAt (← parent.valueIndex neighbor.pageId) key
    let child ← neighbor.valueAt 0
    let (neighbor, node) ← neighbor.moveFirstToEndOf node middleKey
    (((t.write (.internal parent)).write (.internal neighbor)).write (.internal node)).setParent
      node.pageId child
  else
    let last ← neighbor.keyAt (neighbor.size - 1)
    let pre ← t.findLeafPage last false
    let middle ← t.fetchLeaf pre.nextPageId
    let middleKey ← middle.keyAt 0
    let parent ← t.fetchInternal node.parentPageId
    let key ← pre.keyAt 0
    let parent ← parent.setKeyAt (← parent.valueIndex node.pageId) key
    let child ← neighbor.valueAt (neighbor.size - 1)
    let (neighbor, node) ← neighbor.moveLastToFrontOf node middleKey
    (((t.write (.internal parent)).write (.internal neighbor)).write (.internal node)).setParent
      node.pageId child

/-- `Redistribute`. -/
def redistribute (t : BPlusTree K V) (neighbor node : BPlusTreePage K V) (index : ℕ) :
    Option (BPlusTree K V) :=
  match neighbor, node with
  | .leaf neighbor, .leaf node => t.redistributeLeaf neighbor node index
  | .internal neighbor, .internal node => t.redistributeInternal neighbor node index
  | _, _ => none

/-- `CoalesceOrRedistribute`. -/
def coalesceOrRedistribute : ℕ → BPlusTree K V → PageId → Option (BPlusTree K V)
  | 0, _, _ => none
  | rounds + 1, t, id => do
    let node ← t.pages id
    if node.isRootPage then
      t.adjustRoot id
    else
      let parent ← t.fetchInternal node.parentPageId
      let (sibling, after) ← findSibling parent id
      let neighbor ← t.pages sibling
      if node.size + neighbor.size ≤ node.maxSize then
        -- the page that goes is the second one of the two
        let (first, second) := if after then (node, neighbor) else (neighbor, node)
        let (t, parent) ← t.coalesce first second parent (← parent.valueIndex second.pageId)
        if parent.size < (BPlusTreePage.internal (V := V) parent).minSize then
          coalesceOrRedistribute rounds t parent.pageId
        else some t
      else
        t.redistribute neighbor node (← parent.valueIndex id)

/-- `Remove`. -/
def remove (t : BPlusTree K V) (key : K) : Option (BPlusTree K V) :=
  if t.isEmpty then some t
  else do
    let target ← t.findLeafPage key false
    let t ←
      if target.keyIndex key = 0 ∧ target.parentPageId ≠ invalidPageId then do
        let parent ← t.fetchInternal target.parentPageId
        let parent ← parent.setKeyAt (← parent.valueIndex target.pageId) (← target.keyAt 1)
        some (t.write (.internal parent))
      else some t
    let target := target.removeAndDeleteRecord key
    let t := t.write (.leaf target)
    if target.size < (BPlusTreePage.leaf target).minSize then
      coalesceOrRedistribute t.allocated.length t target.pageId
    else some t

end BPlusTree

/-! ## Calls -/

/-- The calls of a tree. -/
inductive TreeCall (K V : Type)
  | insert (key : K) (value : V)
  | remove (key : K)
  | getValue (key : K)

/-- Their answers. -/
inductive TreeAnswer (V : Type)
  | inserted (success : Bool)
  | removed
  | value (v : Option V)
deriving DecidableEq

variable {K V : Type} [LinearOrder K] [Inhabited K]

/-- One call. -/
def BPlusTree.step (cfg : TreeConfig) (t : BPlusTree K V) :
    TreeCall K V → Option (BPlusTree K V × TreeAnswer V)
  | .insert key value => (t.insert cfg key value).map (fun r => (r.1, .inserted r.2))
  | .remove key => (t.remove key).map (fun t => (t, .removed))
  | .getValue key => (t.getValue key).map (fun v => (t, .value v))

end MiniSql
