import MiniSql.Record
import MiniSql.SlotMap
import Mathlib.Data.List.Nodup

/-!
# The table heap

`TableHeap` of `storage/table_heap.cpp`: the rows of a table, in a chain of
slotted pages. Pages are taken at their specification, the slot maps that
they refine, and the rows in their slots are taken as they are, with the size
that `Row::GetSerializedSize` gives them: the heap stores its rows
faithfully.

A row is inserted into the first page that has room for it, else into a new
page at the end of the chain. An update that does not fit into the page of
the old row deletes that row and inserts the new one, which then has another
row id.

`TableHeap.live` is what the heap is for: the live rows, by their row id.
-/

namespace MiniSql

/-- `Row::GetSerializedSize` of a row with the given fields. -/
instance : Sized (List Field) := ⟨fun fields => ((Row.sizeFields fields).map UInt32.toNat).getD 0⟩

/-- The page ids that a heap is given, one after the other, by a correct
allocator. -/
structure PageIds where
  /-- The id of the `n`-th page. -/
  id : ℕ → PageId
  /-- No id is handed out twice. -/
  injective : ∀ i j, id i = id j → i = j
  /-- They are page ids. -/
  valid : ∀ i, 0 ≤ id i

/-- Page ids from 2 on. -/
def pagesFrom2 : PageIds :=
  ⟨fun n => n + 2, fun i j h => Int.ofNat.inj (add_right_cancel h),
    fun i => Int.add_nonneg (Int.natCast_nonneg i) (by decide)⟩

/-- A page of a heap. -/
structure HeapPage where
  /-- `page_id_` -/
  pageId : PageId
  /-- The rows of the page. -/
  slots : List (Slot (List Field))

/-- `TableHeap`: the chain of its pages, the first page first. -/
structure TableHeap where
  /-- The pages. -/
  pages : List HeapPage

namespace TableHeap

/-- `TableHeap::Create`: one page without rows. -/
def create (ids : PageIds) : TableHeap := ⟨[⟨ids.id 0, []⟩]⟩

/-- `FetchPage`, of a page of the heap. -/
def fetchPage (h : TableHeap) (pageId : PageId) : Option HeapPage :=
  h.pages.find? (fun p => p.pageId = pageId)

/-- The heap with the rows of one page replaced. -/
def setSlots (h : TableHeap) (pageId : PageId) (slots : List (Slot (List Field))) : TableHeap :=
  ⟨h.pages.map (fun p => if p.pageId = pageId then ⟨p.pageId, slots⟩ else p)⟩

/-- The live row with the given id. -/
def live (h : TableHeap) (rid : RowId) : Option (List Field) :=
  (h.fetchPage rid.pageId).bind (fun p => SlotMap.getTuple p.slots rid.slotNum)

/-- The loop of `InsertTuple` over the pages of the chain. -/
def insertInto (row : List Field) : List HeapPage → List HeapPage × Option RowId
  | [] => ([], none)
  | p :: ps =>
    match SlotMap.insertTuple p.slots row with
    | (slots, some i) => (⟨p.pageId, slots⟩ :: ps, some ⟨p.pageId, i⟩)
    | (_, none) => (p :: (insertInto row ps).1, (insertInto row ps).2)

/-- `InsertTuple`: the id of the row, or nothing where it does not even fit
into a page of its own. -/
def insertTuple (ids : PageIds) (h : TableHeap) (row : List Field) :
    Option (TableHeap × Option RowId) :=
  if Sized.size row = 0 then none
  else match insertInto row h.pages with
    | (pages, some rid) => some (⟨pages⟩, some rid)
    | (_, none) =>
      let id := ids.id h.pages.length
      match SlotMap.insertTuple [] row with
      | (slots, some i) => some (⟨h.pages ++ [⟨id, slots⟩]⟩, some ⟨id, i⟩)
      | (_, none) => some (⟨h.pages ++ [⟨id, []⟩]⟩, none)

/-- `GetTuple`. -/
def getTuple (h : TableHeap) (rid : RowId) : Option (Option (List Field)) :=
  if rid = invalidRowId then none
  else (h.fetchPage rid.pageId).map (fun p => SlotMap.getTuple p.slots rid.slotNum)

/-- `ApplyDelete`. -/
def applyDelete (h : TableHeap) (rid : RowId) : Option TableHeap :=
  match h.fetchPage rid.pageId with
  | none => none
  | some p => (SlotMap.applyDelete p.slots rid.slotNum).map (h.setSlots rid.pageId)

/-- `MarkDelete`. -/
def markDelete (h : TableHeap) (rid : RowId) : Option TableHeap :=
  (h.fetchPage rid.pageId).map
    (fun p => h.setSlots rid.pageId (SlotMap.markDelete p.slots rid.slotNum).1)

/-- `UpdateTuple`: where the page of the row has no room for its new contents,
the row is deleted and inserted again, somewhere else. -/
def updateTuple (ids : PageIds) (h : TableHeap) (row : List Field) (rid : RowId) :
    Option (TableHeap × Bool) :=
  match h.fetchPage rid.pageId with
  | none => none
  | some p =>
    if rid = invalidRowId ∨ Sized.size row = 0 then none
    else
      let (slots, res, _) := SlotMap.updateTuple p.slots row rid.slotNum
      if res = 0 then
        match h.markDelete rid with
        | none => none
        | some h₁ =>
          match h₁.applyDelete rid with
          | none => none
          | some h₂ => (h₂.insertTuple ids row).map (fun r => (r.1, true))
      else if res = 1 then some (h.setSlots rid.pageId slots, true)
      else some (h, false)

/-- Is there a live tuple in the slot? -/
def isLive : Slot (List Field) → Bool
  | .live _ => true
  | _ => false

/-- `GetFirstTupleRid`, from a slot on. -/
def firstTuple (p : HeapPage) (start : ℕ) : Option RowId :=
  ((p.slots.drop start).findIdx? isLive).map (fun i => ⟨p.pageId, start + i⟩)

/-- `Begin`: the first row of the first page. A first page without live rows
ends the scan before it starts. -/
def begin (h : TableHeap) : Option RowId :=
  h.pages.head?.bind (fun p => firstTuple p 0)

/-- `TableIterator::operator++`: the next live row of the page, else the
first one of a later page. -/
def next (h : TableHeap) (rid : RowId) : Option RowId :=
  match h.pages.dropWhile (fun p => p.pageId ≠ rid.pageId) with
  | [] => none
  | p :: ps => (firstTuple p (rid.slotNum + 1)).or (ps.findSome? (fun p => firstTuple p 0))

/-! ## The live rows -/

/-- The pages of the chain have the ids that the heap was given. -/
def WellFormed (ids : PageIds) (h : TableHeap) : Prop :=
  ∀ i p, h.pages[i]? = some p → p.pageId = ids.id i

variable {ids : PageIds} {h h' : TableHeap} {rid : RowId} {row old : List Field}

theorem wellFormed_create : (create ids).WellFormed ids := by
  intro i p hp
  cases i with
  | zero =>
    cases hp
    rfl
  | succ i => cases hp

/-- The ids of the pages of a well-formed chain are distinct. -/
theorem WellFormed.nodup (hwf : h.WellFormed ids) : (h.pages.map HeapPage.pageId).Nodup := by
  rw [List.nodup_iff_getElem?_ne_getElem?]
  intro i j hij hj hsame
  rw [List.length_map] at hj
  rw [List.getElem?_map, List.getElem?_map, List.getElem?_eq_getElem hj,
    List.getElem?_eq_getElem (hij.trans hj)] at hsame
  have hid := Option.some.inj hsame
  rw [hwf i _ (List.getElem?_eq_getElem _), hwf j _ (List.getElem?_eq_getElem hj)] at hid
  exact absurd (ids.injective _ _ hid) hij.ne

/-- The page that is fetched has the id that was asked for. -/
theorem pageId_of_fetchPage {pageId : PageId} {p : HeapPage} (hp : h.fetchPage pageId = some p) :
    p.pageId = pageId := by
  have hyes := List.find?_some hp
  exact of_decide_eq_true hyes

theorem live_eq {p : HeapPage} (hp : h.fetchPage rid.pageId = some p) :
    h.live rid = SlotMap.getTuple p.slots rid.slotNum := by
  rw [live, hp]
  rfl

theorem live_create : (create ids).live rid = none := by
  rcases hp : (create ids).fetchPage rid.pageId with _ | p
  · rw [live, hp]
    rfl
  · have hmem := List.mem_of_find?_eq_some hp
    rw [create, List.mem_singleton] at hmem
    rw [live_eq hp, hmem]
    rfl

theorem WellFormed.setSlots (hwf : h.WellFormed ids) (pageId : PageId)
    (slots : List (Slot (List Field))) : (h.setSlots pageId slots).WellFormed ids := by
  intro i p hp
  rw [TableHeap.setSlots, List.getElem?_map] at hp
  obtain ⟨q, hq, rfl⟩ := Option.map_eq_some_iff.mp hp
  rw [← hwf i q hq]
  split <;> rfl

theorem fetchPage_setSlots (pageId q : PageId) (slots : List (Slot (List Field))) :
    (h.setSlots pageId slots).fetchPage q
      = (h.fetchPage q).map (fun p => if p.pageId = pageId then ⟨p.pageId, slots⟩ else p) := by
  have hid : ∀ p : HeapPage,
    (if p.pageId = pageId then (⟨p.pageId, slots⟩ : HeapPage) else p).pageId
      = p.pageId := fun p => by split <;> rfl
  simp only [fetchPage, TableHeap.setSlots, List.find?_map, Function.comp_def, hid]

/-- Replacing the rows of a page where only one slot changes. -/
theorem live_setSlots {pageId : PageId} {p : HeapPage} {slots : List (Slot (List Field))} {i : ℕ}
    (hp : h.fetchPage pageId = some p) (hother : ∀ j, j ≠ i → slots[j]? = p.slots[j]?) :
    (h.setSlots pageId slots).live
      = Function.update h.live ⟨pageId, i⟩ (SlotMap.getTuple slots i) := by
  funext r
  by_cases hr : r.pageId = pageId
  · have hfetch : (h.setSlots pageId slots).fetchPage r.pageId = some ⟨pageId, slots⟩ := by
      rw [fetchPage_setSlots, hr, hp, Option.map_some, if_pos (pageId_of_fetchPage hp),
        pageId_of_fetchPage hp]
    rw [live_eq hfetch]
    by_cases hi : r.slotNum = i
    · have hrid : r = ⟨pageId, i⟩ := by rw [← hr, ← hi]
      rw [hrid, Function.update_self]
    · have hrid : r ≠ ⟨pageId, i⟩ := fun e => hi (congrArg RowId.slotNum e)
      rw [Function.update_of_ne hrid, live_eq (hr ▸ hp)]
      simp only [SlotMap.getTuple, hother _ hi]
  · have hrid : r ≠ ⟨pageId, i⟩ := fun e => hr (congrArg RowId.pageId e)
    rw [Function.update_of_ne hrid, live, live, fetchPage_setSlots]
    rcases hq : h.fetchPage r.pageId with _ | q
    · rfl
    · rw [Option.map_some, if_neg (by rw [pageId_of_fetchPage hq]; exact hr)]

/-! ## What the operations do to the live rows -/

/-- The page of the chain into which a row goes. -/
theorem insertInto_eq_some {pages pages' : List HeapPage}
    (hins : insertInto row pages = (pages', some rid)) :
    ∃ pre p post slots, pages = pre ++ p :: post ∧ pages' = pre ++ ⟨p.pageId, slots⟩ :: post ∧
      p.pageId = rid.pageId ∧ SlotMap.insertTuple p.slots row = (slots, some rid.slotNum) := by
  induction pages generalizing pages' with
  | nil => cases hins
  | cons p ps ih =>
    unfold insertInto at hins
    split at hins
    · rename_i slots i hslots
      cases hins
      exact ⟨[], p, ps, slots, rfl, rfl, rfl, hslots⟩
    · obtain ⟨hpages, hrid⟩ := Prod.mk.inj hins
      have hrest : insertInto row ps = ((insertInto row ps).1, some rid) := Prod.ext rfl hrid
      obtain ⟨pre, q, post, slots, hps, hps', hid, hslots⟩ := ih hrest
      exact ⟨p :: pre, q, post, slots, by rw [hps]; rfl, by rw [← hpages, hps']; rfl, hid, hslots⟩

/-- The row of a slot that was not in use. -/
theorem getTuple_eq_none {slots : List (Slot (List Field))} {i : ℕ}
    (hs : slots[i]? = none ∨ slots[i]? = some .free) : SlotMap.getTuple slots i = none := by
  rcases hs with hs | hs <;> simp only [SlotMap.getTuple, hs]

theorem getTuple_eq_some {slots : List (Slot (List Field))} {i : ℕ} :
    SlotMap.getTuple slots i = some row ↔ slots[i]? = some (.live row) := by
  unfold SlotMap.getTuple
  split
  · rename_i t ht
    rw [ht]
    exact ⟨fun e => by rw [Option.some.inj e], fun e => by rw [Slot.live.inj (Option.some.inj e)]⟩
  · rename_i hno
    exact ⟨nofun, fun e => absurd e (hno row)⟩

/-- The page at one place of the chain is the one that is fetched, and the one
whose rows are replaced. -/
theorem WellFormed.at_place (hwf : h.WellFormed ids) {pre post : List HeapPage} {p : HeapPage}
    (hpages : h.pages = pre ++ p :: post) (slots : List (Slot (List Field))) :
    h.fetchPage p.pageId = some p ∧
      h.setSlots p.pageId slots = ⟨pre ++ ⟨p.pageId, slots⟩ :: post⟩ := by
  have hnodup := hwf.nodup
  rw [hpages, List.map_append, List.map_cons, List.nodup_append] at hnodup
  obtain ⟨-, hpost, hdisj⟩ := hnodup
  have hpre : ∀ q ∈ pre, q.pageId ≠ p.pageId := fun q hq =>
    hdisj _ (List.mem_map_of_mem hq) _ List.mem_cons_self
  have hpost : ∀ q ∈ post, q.pageId ≠ p.pageId := fun q hq e =>
    (List.nodup_cons.mp hpost).1 (e ▸ List.mem_map_of_mem hq)
  have hkeep : ∀ l : List HeapPage, (∀ q ∈ l, q.pageId ≠ p.pageId) →
      l.map (fun q => if q.pageId = p.pageId then ⟨q.pageId, slots⟩ else q) = l := fun l hl =>
    (List.map_congr_left (fun q hq => if_neg (hl q hq))).trans (List.map_id l)
  constructor
  · rw [fetchPage, hpages, List.find?_append, List.find?_eq_none.mpr (fun q hq => by
      simpa only [decide_eq_true_eq] using hpre q hq), Option.none_or, List.find?_cons_of_pos]
    exact decide_eq_true rfl
  · rw [TableHeap.setSlots, hpages, List.map_append, List.map_cons, hkeep pre hpre,
      hkeep post hpost, if_pos rfl]

/-- No page of the chain has the invalid id. -/
theorem WellFormed.ne_invalid (hwf : h.WellFormed ids) {p : HeapPage} (hp : p ∈ h.pages)
    (hid : p.pageId = rid.pageId) : rid ≠ invalidRowId := by
  obtain ⟨i, hi, rfl⟩ := List.mem_iff_getElem.mp hp
  have hvalid := ids.valid i
  rw [← hwf i _ (List.getElem?_eq_getElem hi), hid] at hvalid
  intro e
  rw [e] at hvalid
  exact absurd hvalid (by decide)

/-- A new page at the end of the chain. -/
theorem WellFormed.append (hwf : h.WellFormed ids) (slots : List (Slot (List Field))) :
    (⟨h.pages ++ [⟨ids.id h.pages.length, slots⟩]⟩ : TableHeap).WellFormed ids := by
  intro i p hp
  rcases Nat.lt_or_ge i h.pages.length with hlt | hge
  · exact hwf i p (by rwa [List.getElem?_append_left hlt] at hp)
  · rw [List.getElem?_append_right hge] at hp
    rcases Nat.eq_or_lt_of_le hge with heq | hgt
    · rw [heq, Nat.sub_self] at hp
      cases hp
      rfl
    · rw [List.getElem?_eq_none (by rw [List.length_singleton]; omega)] at hp
      cases hp

theorem WellFormed.fetchPage_length (hwf : h.WellFormed ids) :
    h.fetchPage (ids.id h.pages.length) = none := by
  refine List.find?_eq_none.mpr (fun p hp => ?_)
  obtain ⟨i, hi, hpi⟩ := List.mem_iff_getElem.mp hp
  rw [decide_eq_true_eq, hwf i p (by rw [List.getElem?_eq_getElem hi, hpi])]
  exact fun e => absurd (ids.injective _ _ e) hi.ne

/-- The new page has the live rows that are put into it. -/
theorem WellFormed.live_append (hwf : h.WellFormed ids) (slots : List (Slot (List Field)))
    (rid : RowId) :
    (⟨h.pages ++ [⟨ids.id h.pages.length, slots⟩]⟩ : TableHeap).live rid =
      if rid.pageId = ids.id h.pages.length then SlotMap.getTuple slots rid.slotNum
      else h.live rid := by
  rw [live, fetchPage, List.find?_append]
  split
  · rename_i hid
    have hnone := hwf.fetchPage_length
    rw [fetchPage, ← hid] at hnone
    have hfind : List.find? (fun p : HeapPage => p.pageId = rid.pageId)
        [⟨ids.id h.pages.length, slots⟩] = some ⟨ids.id h.pages.length, slots⟩ :=
      List.find?_cons_of_pos (decide_eq_true hid.symm)
    rw [hnone, Option.none_or, hfind]
    rfl
  · rename_i hid
    rw [List.find?_cons_of_neg (by simpa only [decide_eq_true_eq] using Ne.symm hid),
      List.find?_nil, Option.or_none]
    rfl

/-- **An insertion** adds the row under an id that was not in use; where the
row does not fit anywhere the live rows stay as they are. -/
theorem WellFormed.insertTuple (hwf : h.WellFormed ids) {r : Option RowId}
    (hins : h.insertTuple ids row = some (h', r)) :
    h'.WellFormed ids ∧
      ((r = none ∧ h'.live = h.live) ∨
        ∃ rid, r = some rid ∧ rid ≠ invalidRowId ∧ h.live rid = none ∧
          h'.live = Function.update h.live rid (some row)) := by
  unfold TableHeap.insertTuple at hins
  split at hins
  · cases hins
  split at hins
  · rename_i pages rid hinto
    cases hins
    obtain ⟨pre, p, post, slots, hpages, rfl, hid, hslots⟩ := insertInto_eq_some hinto
    obtain ⟨-, hold, hnew, hother⟩ := SlotMap.insertTuple_eq_some hslots
    obtain ⟨hfetch, hset⟩ := hwf.at_place hpages slots
    rw [← hset]
    refine ⟨hwf.setSlots _ _, .inr ⟨rid, rfl, ?_, ?_, ?_⟩⟩
    · exact hwf.ne_invalid (List.mem_of_find?_eq_some hfetch) hid
    · rw [live_eq (hid ▸ hfetch), getTuple_eq_none hold]
    · rw [live_setSlots hfetch hother, getTuple_eq_some.mpr hnew, hid]
  · split at hins
    · rename_i slots i hslots
      cases hins
      obtain ⟨-, -, hnew, hother⟩ := SlotMap.insertTuple_eq_some hslots
      refine ⟨hwf.append slots, .inr ⟨_, rfl, ?_, ?_, ?_⟩⟩
      · intro e
        have hvalid := ids.valid h.pages.length
        have hid : ids.id h.pages.length = invalidPageId := congrArg RowId.pageId e
        rw [hid] at hvalid
        exact absurd hvalid (by decide)
      · rw [live, hwf.fetchPage_length]
        rfl
      · funext r
        rw [hwf.live_append]
        by_cases hr : r = ⟨ids.id h.pages.length, i⟩
        · rw [hr, if_pos rfl, Function.update_self, getTuple_eq_some.mpr hnew]
        · rw [Function.update_of_ne hr]
          split
          · rename_i hid
            have hi : r.slotNum ≠ i := fun e => hr (by rw [← hid, ← e])
            rw [live, hid, hwf.fetchPage_length, getTuple_eq_none (.inl (hother _ hi))]
            rfl
          · rfl
    · cases hins
      refine ⟨hwf.append [], .inl ⟨rfl, funext (fun r => ?_)⟩⟩
      rw [hwf.live_append]
      split
      · rename_i hid
        rw [live, hid, hwf.fetchPage_length]
        rfl
      · rfl

/-- A live row can be fetched. -/
theorem exists_fetchPage (hlive : h.live rid = some old) :
    ∃ p, h.fetchPage rid.pageId = some p ∧ p.slots[rid.slotNum]? = some (.live old) := by
  obtain ⟨p, hp, hget⟩ := Option.bind_eq_some_iff.mp hlive
  exact ⟨p, hp, getTuple_eq_some.mp hget⟩

/-- `GetTuple` reads the live rows. -/
theorem getTuple_eq {r : Option (List Field)} (hget : h.getTuple rid = some r) :
    h.live rid = r := by
  unfold TableHeap.getTuple at hget
  split at hget
  · cases hget
  · obtain ⟨p, hp, hr⟩ := Option.map_eq_some_iff.mp hget
    rw [live_eq hp, hr]

/-- **A deletion** takes the row away. -/
theorem WellFormed.applyDelete (hwf : h.WellFormed ids) (hdel : h.applyDelete rid = some h') :
    h'.WellFormed ids ∧ h'.live = Function.update h.live rid none := by
  unfold TableHeap.applyDelete at hdel
  split at hdel
  · cases hdel
  · rename_i p hp
    obtain ⟨slots, hslots, rfl⟩ := Option.map_eq_some_iff.mp hdel
    refine ⟨hwf.setSlots _ _, ?_⟩
    rw [live_setSlots hp (fun j hj => SlotMap.getElem?_applyDelete_of_ne hslots (Ne.symm hj))]
    rw [SlotMap.getTuple_applyDelete hslots]

/-- A row that is marked as deleted is no longer live. -/
theorem WellFormed.markDelete (hwf : h.WellFormed ids) (hmark : h.markDelete rid = some h') :
    h'.WellFormed ids ∧ h'.live = Function.update h.live rid none := by
  obtain ⟨p, hp, rfl⟩ := Option.map_eq_some_iff.mp hmark
  refine ⟨hwf.setSlots _ _, ?_⟩
  rw [live_setSlots hp (fun j hj => SlotMap.getElem?_markDelete_of_ne (Ne.symm hj))]
  rw [SlotMap.getTuple_markDelete]

/-- Does the page of a row have room for its new contents? -/
def Fits (h : TableHeap) (row : List Field) (rid : RowId) : Prop :=
  ∀ p old, h.fetchPage rid.pageId = some p → p.slots[rid.slotNum]? = some (.live old) →
    Sized.size row ≤ SlotMap.room p.slots + Sized.size old

/-- A row that is not larger fits into the place of the old one. -/
theorem fits_of_size_le (hlive : h.live rid = some old) (hsize : Sized.size row ≤ Sized.size old) :
    h.Fits row rid := by
  intro p old' hp hs
  rw [live_eq hp, getTuple_eq_some.mpr hs] at hlive
  cases hlive
  exact hsize.trans (Nat.le_add_left _ _)

/-- Does a row fit into a page without rows? -/
def FitsPage (row : List Field) : Prop :=
  Sized.size row + 8 ≤ SlotMap.room ([] : List (Slot (List Field)))

/-- A row that no page takes does not fit into a page of its own. -/
theorem not_fitsPage_of_insertTuple (hins : h.insertTuple ids row = some (h', none)) :
    ¬ FitsPage row := by
  unfold TableHeap.insertTuple at hins
  split at hins
  · cases hins
  split at hins
  · cases hins
  · split at hins
    · cases hins
    · rename_i hslots
      unfold SlotMap.insertTuple at hslots
      split at hslots
      · rename_i hfull
        exact not_le.mpr hfull
      · cases hslots

/-- Pages are added to the chain only. -/
theorem length_le_of_insertTuple {r : Option RowId} (hins : h.insertTuple ids row = some (h', r)) :
    h.pages.length ≤ h'.pages.length := by
  have happend : ∀ p : HeapPage, h.pages.length ≤ (h.pages ++ [p]).length := fun p => by
    rw [List.length_append]
    exact Nat.le_add_right _ _
  unfold TableHeap.insertTuple at hins
  split at hins
  · cases hins
  split at hins
  · rename_i pages rid hinto
    cases hins
    obtain ⟨pre, p, post, slots, hpages, rfl, -⟩ := insertInto_eq_some hinto
    rw [hpages]
    simp only [List.length_append, List.length_cons, le_refl]
  · split at hins
    · cases hins
      exact happend _
    · cases hins
      exact happend _

theorem length_setSlots (pageId : PageId) (slots : List (Slot (List Field))) :
    (h.setSlots pageId slots).pages.length = h.pages.length := List.length_map _

/-- Where `UpdateTuple` puts the new contents of a row. -/
def place (ids : PageIds) (h : TableHeap) (row : List Field) (rid : RowId) : Option RowId :=
  match h.fetchPage rid.pageId with
  | none => none
  | some p =>
    if (SlotMap.updateTuple p.slots row rid.slotNum).2.1 = 0 then
      ((h.markDelete rid).bind (fun h₁ => h₁.applyDelete rid)).bind
        (fun h₂ => (h₂.insertTuple ids row).bind Prod.snd)
    else some rid

/-- **An update** of a live row puts it into its place: the slot where it was,
or, where it does not fit, another one, or none at all if it fits into no
page. -/
theorem WellFormed.updateTuple_place (hwf : h.WellFormed ids) (hlive : h.live rid = some old)
    {b : Bool} (hup : h.updateTuple ids row rid = some (h', b)) :
    (h'.WellFormed ids ∧ b = true ∧ h.pages.length ≤ h'.pages.length) ∧
      ((h.place ids row rid = some rid ∧ h'.live = Function.update h.live rid (some row)) ∨
        ¬ h.Fits row rid ∧
          ((¬ FitsPage row ∧ h'.live = Function.update h.live rid none) ∨
            ∃ rid', h.place ids row rid = some rid' ∧
              Function.update h.live rid none rid' = none ∧
              h'.live = Function.update (Function.update h.live rid none) rid' (some row))) := by
  obtain ⟨p, hp, hs⟩ := exists_fetchPage hlive
  have hlt : rid.slotNum < p.slots.length := (List.getElem?_eq_some_iff.mp hs).1
  unfold TableHeap.updateTuple at hup
  simp only [hp] at hup
  split at hup
  · cases hup
  by_cases hfull : SlotMap.room p.slots + Sized.size old < Sized.size row
  · have hres : SlotMap.updateTuple p.slots row rid.slotNum = (p.slots, 0, none) := by
      simp only [SlotMap.updateTuple, hs, if_pos hfull]
    rw [hres] at hup
    simp only [if_pos] at hup
    split at hup
    · cases hup
    rename_i h₁ hmark
    have hlive₁ := hwf.markDelete hmark
    split at hup
    · cases hup
    rename_i h₂ happly
    obtain ⟨hwf₂, hlive₂⟩ := hlive₁.1.applyDelete happly
    have hgone : h₂.live = Function.update h.live rid none := by
      rw [hlive₂, hlive₁.2, Function.update_idem]
    obtain ⟨⟨h₃, r⟩, hins, hr⟩ := Option.map_eq_some_iff.mp hup
    cases hr
    have hplace : h.place ids row rid = r := by
      simp only [place, hp, hres, if_pos, hmark, happly, Option.bind_some, hins]
    have hlength : h.pages.length = h₂.pages.length := by
      obtain ⟨_, -, rfl⟩ := Option.map_eq_some_iff.mp hmark
      unfold TableHeap.applyDelete at happly
      split at happly
      · cases happly
      · obtain ⟨_, -, rfl⟩ := Option.map_eq_some_iff.mp happly
        rw [length_setSlots, length_setSlots]
    obtain ⟨hwf₃, hcases⟩ := hwf₂.insertTuple hins
    rw [hgone] at hcases
    refine ⟨⟨hwf₃, rfl, hlength ▸ length_le_of_insertTuple hins⟩, .inr ⟨fun hfits => ?_, ?_⟩⟩
    · have := hfits p old hp hs
      omega
    · rcases hcases with ⟨rfl, hsame⟩ | ⟨rid', hr, -, hfree, hnew⟩
      · exact .inl ⟨not_fitsPage_of_insertTuple hins, hsame⟩
      · exact .inr ⟨rid', hplace.trans hr, hfree, hnew⟩
  · have hres : SlotMap.updateTuple p.slots row rid.slotNum
        = (p.slots.set rid.slotNum (.live row), 1, some old) := by
      simp only [SlotMap.updateTuple, hs, if_neg hfull]
    rw [hres] at hup
    cases hup
    refine ⟨⟨hwf.setSlots _ _, rfl, (length_setSlots _ _).ge⟩, .inl ⟨?_, ?_⟩⟩
    · simp only [place, hp, hres]
      rfl
    · rw [live_setSlots hp (fun j hj => List.getElem?_set_ne (Ne.symm hj)),
        getTuple_eq_some.mpr (List.getElem?_set_self hlt)]

/-- What an update does to the live rows. -/
theorem WellFormed.updateTuple (hwf : h.WellFormed ids) (hlive : h.live rid = some old) {b : Bool}
    (hup : h.updateTuple ids row rid = some (h', b)) :
    h'.WellFormed ids ∧ b = true ∧
      (h'.live = Function.update h.live rid (some row) ∨
        (¬ h.Fits row rid ∧ (h'.live = Function.update h.live rid none ∨
          ∃ rid', Function.update h.live rid none rid' = none ∧
            h'.live = Function.update (Function.update h.live rid none) rid' (some row)))) := by
  obtain ⟨⟨hwf', hb, -⟩, hcases⟩ := hwf.updateTuple_place hlive hup
  refine ⟨hwf', hb, ?_⟩
  rcases hcases with ⟨-, hin⟩ | ⟨hfit, ⟨-, hlost⟩ | ⟨rid', -, hmoved⟩⟩
  · exact .inl hin
  · exact .inr ⟨hfit, .inl hlost⟩
  · exact .inr ⟨hfit, .inr ⟨rid', hmoved⟩⟩

end TableHeap

end MiniSql
