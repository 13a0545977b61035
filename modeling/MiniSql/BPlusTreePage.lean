import MiniSql.Config
import Mathlib.Order.Defs.LinearOrder

/-!
# The pages of a B+ tree

`BPlusTreePage`, `BPlusTreeLeafPage` and `BPlusTreeInternalPage`. The array of
a page is a list, whose length is `size_`; the key of the first entry of an
internal page is not used. The comparator is a linear order, and what a failed
assertion or a read past the array gives is `none`.

The functions that move entries between two pages give the page itself and
the recipient. What they do to the parent ids of the children that move is
the business of the tree, which has the other pages.
-/

namespace MiniSql

variable {K V : Type}

/-- `BPlusTreeLeafPage`. -/
structure LeafPage (K V : Type) where
  /-- `page_id_` -/
  pageId : PageId
  /-- `parent_page_id_` -/
  parentPageId : PageId
  /-- `next_page_id_` -/
  nextPageId : PageId
  /-- `max_size_` -/
  maxSize : ℕ
  /-- `array_`, up to `size_` -/
  array : List (K × V)

/-- `BPlusTreeInternalPage`. -/
structure InternalPage (K : Type) where
  /-- `page_id_` -/
  pageId : PageId
  /-- `parent_page_id_` -/
  parentPageId : PageId
  /-- `max_size_` -/
  maxSize : ℕ
  /-- `array_`, up to `size_` -/
  array : List (K × PageId)

namespace LeafPage

/-- `GetSize`. -/
def size (p : LeafPage K V) : ℕ := p.array.length

/-- `KeyAt`. -/
def keyAt (p : LeafPage K V) (index : ℕ) : Option K := p.array[index]?.map Prod.fst

section Search

variable [LinearOrder K]

/-- The loop of `KeyIndex` over the positions from `st` up to, but without,
`ed`; it takes at most as many rounds as there are positions. -/
def keyIndexLoop (array : List (K × V)) (key : K) : ℕ → ℕ → ℕ → ℕ
  | 0, _, ed => ed
  | rounds + 1, st, ed =>
    if st < ed then
      let mid := (ed - 1 - st) / 2 + st
      if array[mid]?.any (fun e => key ≤ e.1) then keyIndexLoop array key rounds st mid
      else keyIndexLoop array key rounds (mid + 1) ed
    else ed

/-- `KeyIndex`: the first position whose key is not smaller than the given
one. -/
def keyIndex (p : LeafPage K V) (key : K) : ℕ := keyIndexLoop p.array key p.size 0 p.size

/-- `Lookup`. -/
def lookup (p : LeafPage K V) (key : K) : Option V :=
  match p.array[p.keyIndex key]? with
  | none => none
  | some e => if e.1 = key then some e.2 else none

/-- `Insert`. -/
def insert (p : LeafPage K V) (key : K) (value : V) : Option (LeafPage K V) :=
  if p.size < p.maxSize + 1 then
    let i := p.keyIndex key
    some { p with array := p.array.take i ++ (key, value) :: p.array.drop i }
  else none

/-- `RemoveAndDeleteRecord`. -/
def removeAndDeleteRecord (p : LeafPage K V) (key : K) : LeafPage K V :=
  match p.array[p.keyIndex key]? with
  | none => p
  | some e => if e.1 = key then { p with array := p.array.eraseIdx (p.keyIndex key) } else p

end Search

/-- `MoveHalfTo`, an empty recipient. -/
def moveHalfTo (p recipient : LeafPage K V) : Option (LeafPage K V × LeafPage K V) :=
  let total := p.maxSize + 1
  if p.size = total then
    some ({ p with array := p.array.take (total / 2), nextPageId := recipient.pageId },
      { recipient with array := p.array.drop (total / 2), nextPageId := p.nextPageId })
  else none

/-- `MoveAllTo`: the recipient. -/
def moveAllTo (p recipient : LeafPage K V) : LeafPage K V :=
  { recipient with array := recipient.array ++ p.array, nextPageId := p.nextPageId }

/-- `MoveFirstToEndOf`. -/
def moveFirstToEndOf (p recipient : LeafPage K V) : Option (LeafPage K V × LeafPage K V) :=
  p.array.head?.map (fun e =>
    ({ p with array := p.array.tail }, { recipient with array := recipient.array ++ [e] }))

/-- `MoveLastToFrontOf`. -/
def moveLastToFrontOf (p recipient : LeafPage K V) : Option (LeafPage K V × LeafPage K V) :=
  p.array.getLast?.map (fun e =>
    ({ p with array := p.array.dropLast }, { recipient with array := e :: recipient.array }))

end LeafPage

namespace InternalPage

/-- `GetSize`. -/
def size (p : InternalPage K) : ℕ := p.array.length

/-- `KeyAt`. -/
def keyAt (p : InternalPage K) (index : ℕ) : Option K := p.array[index]?.map Prod.fst

/-- `SetKeyAt`. -/
def setKeyAt (p : InternalPage K) (index : ℕ) (key : K) : Option (InternalPage K) :=
  p.array[index]?.map (fun e => { p with array := p.array.set index (key, e.2) })

/-- `ValueAt`. -/
def valueAt (p : InternalPage K) (index : ℕ) : Option PageId := p.array[index]?.map Prod.snd

/-- `ValueIndex`. -/
def valueIndex (p : InternalPage K) (value : PageId) : Option ℕ :=
  p.array.findIdx? (fun e => e.2 = value)

section Search

variable [LinearOrder K]

/-- The loop of `Lookup` over the positions from `left` up to, but without,
`right`. -/
def lookupLoop (array : List (K × PageId)) (key : K) : ℕ → ℕ → ℕ → ℕ
  | 0, left, _ => left - 1
  | rounds + 1, left, right =>
    if left < right then
      let mid := left + (right - 1 - left) / 2
      match array[mid]? with
      | none => left - 1
      | some e =>
        if e.1 = key then mid
        else if e.1 < key then lookupLoop array key rounds (mid + 1) right
        else lookupLoop array key rounds left mid
    else left - 1

/-- `Lookup`: the child for a key. A page with one child has no second key, and
whatever is read in its place, the answer is that child. -/
def lookup (p : InternalPage K) (key : K) : Option PageId :=
  match p.array with
  | [] => none
  | [c] => some c.2
  | c :: c₁ :: _ =>
    if key < c₁.1 then some c.2
    else if p.array.getLast?.any (fun e => e.1 ≤ key) then p.valueAt (p.size - 1)
    else p.valueAt (lookupLoop p.array key p.size 1 p.size)

end Search

/-- `InsertNodeAfter`. -/
def insertNodeAfter (p : InternalPage K) (oldValue : PageId) (newKey : K) (newValue : PageId) :
    Option (InternalPage K) :=
  (p.valueIndex oldValue).map (fun i =>
    { p with array := p.array.take (i + 1) ++ (newKey, newValue) :: p.array.drop (i + 1) })

/-- `MoveHalfTo`, an empty recipient. -/
def moveHalfTo (p recipient : InternalPage K) : Option (InternalPage K × InternalPage K) :=
  let total := p.maxSize + 1
  if p.size = total then
    some ({ p with array := p.array.take (total / 2) },
      { recipient with array := p.array.drop (total / 2) })
  else none

/-- `Remove`. -/
def remove (p : InternalPage K) (index : ℕ) : Option (InternalPage K) :=
  if index < p.size then some { p with array := p.array.eraseIdx index } else none

/-- `RemoveAndReturnOnlyChild`. -/
def removeAndReturnOnlyChild (p : InternalPage K) : Option PageId :=
  match p.array with
  | [c] => some c.2
  | _ => none

/-- `MoveAllTo`: the recipient. -/
def moveAllTo (p recipient : InternalPage K) (middleKey : K) : InternalPage K :=
  { recipient with
    array := recipient.array ++ p.array.modifyHead (fun c => (middleKey, c.2)) }

/-- `MoveFirstToEndOf`. -/
def moveFirstToEndOf (p recipient : InternalPage K) (middleKey : K) :
    Option (InternalPage K × InternalPage K) :=
  p.array.head?.map (fun c =>
    ({ p with array := p.array.tail },
      { recipient with array := recipient.array ++ [(middleKey, c.2)] }))

/-- `MoveLastToFrontOf`. -/
def moveLastToFrontOf (p recipient : InternalPage K) (middleKey : K) :
    Option (InternalPage K × InternalPage K) :=
  p.array.getLast?.map (fun c =>
    ({ p with array := p.array.dropLast },
      { recipient with
        array := c :: recipient.array.modifyHead (fun r => (middleKey, r.2)) }))

end InternalPage

/-- `BPlusTreePage`: a page of one of the two types. -/
inductive BPlusTreePage (K V : Type)
  | leaf (p : LeafPage K V)
  | internal (p : InternalPage K)

namespace BPlusTreePage

/-- `GetPageId`. -/
def pageId : BPlusTreePage K V → PageId
  | leaf p => p.pageId
  | internal p => p.pageId

/-- `GetParentPageId`. -/
def parentPageId : BPlusTreePage K V → PageId
  | leaf p => p.parentPageId
  | internal p => p.parentPageId

/-- `SetParentPageId`. -/
def setParentPageId (id : PageId) : BPlusTreePage K V → BPlusTreePage K V
  | leaf p => leaf { p with parentPageId := id }
  | internal p => internal { p with parentPageId := id }

/-- `GetSize`. -/
def size : BPlusTreePage K V → ℕ
  | leaf p => p.size
  | internal p => p.size

/-- `GetMaxSize`. -/
def maxSize : BPlusTreePage K V → ℕ
  | leaf p => p.maxSize
  | internal p => p.maxSize

/-- `IsRootPage`. -/
def isRootPage (p : BPlusTreePage K V) : Bool := p.parentPageId = invalidPageId

/-- `GetMinSize`. -/
def minSize (p : BPlusTreePage K V) : ℕ :=
  if p.isRootPage then
    match p with
    | leaf _ => 1
    | internal _ => 2
  else
    match p with
    | leaf p => p.maxSize / 2
    | internal p => (p.maxSize - 1) / 2 + 1

end BPlusTreePage

end MiniSql
