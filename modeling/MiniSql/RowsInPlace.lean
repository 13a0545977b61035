import MiniSql.HeapOrder

/-!
# Rows that are replaced in their place

A heap in which each live row has been replaced by another one, in the slot in which it
stands. Nothing else of the heap depends on the rows: the pages, their slots and the places of
the rows are the same (`TableHeap.mapRows`).

It is what a statement that moves no row makes of a heap, in closed form: the row with an id
afterwards is the row with that id before, replaced (`TableHeap.live_mapRows`).
-/

namespace MiniSql

/-- A slot with its row replaced, if it has one. -/
def Slot.mapLive {α : Type} (f : α → α) : Slot α → Slot α
  | .live row => .live (f row)
  | s => s

namespace TableHeap

variable {ids : PageIds} {h : TableHeap} {p : HeapPage} {rid q : RowId} {old : List Field}
  {f g : RowId → List Field → List Field} {slots : List (Slot (List Field))}

/-- The slots of a page with the rows replaced. -/
def mapSlots (pageId : PageId) (f : RowId → List Field → List Field)
    (slots : List (Slot (List Field))) : List (Slot (List Field)) :=
  slots.mapIdx (fun i s => s.mapLive (f ⟨pageId, i⟩))

/-- The heap with the rows replaced. -/
def mapRows (f : RowId → List Field → List Field) (h : TableHeap) : TableHeap :=
  ⟨h.pages.map (fun p => ⟨p.pageId, mapSlots p.pageId f p.slots⟩)⟩

theorem getElem?_mapSlots {pageId : PageId} {i : ℕ} :
    (mapSlots pageId f slots)[i]? = slots[i]?.map (Slot.mapLive (f ⟨pageId, i⟩)) :=
  List.getElem?_mapIdx

/-- Where there is a row, there has been one. -/
theorem mapSlots_live {pageId : PageId} {i : ℕ} {row : List Field} :
    (mapSlots pageId f slots)[i]? = some (.live row) ↔
      ∃ old, slots[i]? = some (.live old) ∧ f ⟨pageId, i⟩ old = row := by
  rw [getElem?_mapSlots, Option.map_eq_some_iff]
  constructor
  · rintro ⟨s, hs, hrow⟩
    cases s with
    | live old => exact ⟨old, hs, Slot.live.inj hrow⟩
    | free => cases hrow
    | marked old => cases hrow
  · rintro ⟨old, hs, rfl⟩
    exact ⟨_, hs, rfl⟩

/-- Rows that are replaced by themselves. -/
theorem mapSlots_eq_self {pageId : PageId}
    (hf : ∀ i row, slots[i]? = some (.live row) → f ⟨pageId, i⟩ row = row) :
    mapSlots pageId f slots = slots := by
  refine List.ext_getElem? (fun i => ?_)
  rw [getElem?_mapSlots]
  cases hs : slots[i]? with
  | none => rfl
  | some s =>
    cases s with
    | live row => rw [Option.map_some, Slot.mapLive, hf i row hs]
    | free => rfl
    | marked row => rfl

theorem mapSlots_mapSlots {pageId : PageId} :
    mapSlots pageId f (mapSlots pageId g slots) =
      mapSlots pageId (fun q row => f q (g q row)) slots := by
  refine List.ext_getElem? (fun i => ?_)
  rw [getElem?_mapSlots, getElem?_mapSlots, getElem?_mapSlots, Option.map_map]
  refine congrArg (fun m => slots[i]?.map m) (funext (fun s => ?_))
  cases s <;> rfl

/-- Where the rows stand does not change. -/
theorem map_isLive_mapSlots {pageId : PageId} :
    (mapSlots pageId f slots).map isLive = slots.map isLive := by
  refine List.ext_getElem? (fun i => ?_)
  rw [List.getElem?_map, getElem?_mapSlots, Option.map_map, List.getElem?_map]
  refine congrArg (fun m => slots[i]?.map m) (funext (fun s => ?_))
  cases s <;> rfl

theorem mapRows_id (h : TableHeap) : h.mapRows (fun _ row => row) = h := by
  refine congrArg TableHeap.mk ((List.map_congr_left (fun p _ => ?_)).trans (List.map_id _))
  rw [mapSlots_eq_self (fun _ _ _ => rfl)]
  rfl

/-- One replacement after the other. -/
theorem mapRows_mapRows (f g : RowId → List Field → List Field) (h : TableHeap) :
    (h.mapRows g).mapRows f = h.mapRows (fun q row => f q (g q row)) := by
  refine congrArg TableHeap.mk (List.map_map.trans (List.map_congr_left (fun p _ => ?_)))
  rw [Function.comp_apply, mapSlots_mapSlots]

theorem fetchPage_mapRows (pageId : PageId) : (h.mapRows f).fetchPage pageId =
    (h.fetchPage pageId).map (fun p => ⟨p.pageId, mapSlots p.pageId f p.slots⟩) :=
  List.find?_map ..

/-- **The rows afterwards.** -/
theorem live_mapRows (q : RowId) : (h.mapRows f).live q = (h.live q).map (f q) := by
  rw [live, live, fetchPage_mapRows]
  cases hp : h.fetchPage q.pageId with
  | none => rfl
  | some p =>
    rw [Option.map_some, Option.bind_some, Option.bind_some]
    refine Option.ext (fun row => ?_)
    rw [getTuple_eq_some, mapSlots_live, Option.map_eq_some_iff]
    have hq : (⟨p.pageId, q.slotNum⟩ : RowId) = q := by rw [pageId_of_fetchPage hp]
    rw [hq]
    exact exists_congr (fun old => and_congr_left (fun _ => getTuple_eq_some.symm))

theorem WellFormed.mapRows (hwf : h.WellFormed ids) : (h.mapRows f).WellFormed ids := by
  intro i p hp
  obtain ⟨p₀, hp₀, rfl⟩ := Option.map_eq_some_iff.mp (List.getElem?_map.symm.trans hp)
  exact hwf i p₀ hp₀

/-- **One row** is replaced by writing into its slot. -/
theorem WellFormed.setSlots_set (hwf : h.WellFormed ids) (hp : h.fetchPage rid.pageId = some p)
    (hs : p.slots[rid.slotNum]? = some (.live old)) (k : List Field → List Field) :
    h.setSlots rid.pageId (p.slots.set rid.slotNum (.live (k old))) =
      h.mapRows (fun q row => if q = rid then k row else row) := by
  refine congrArg TableHeap.mk (List.map_congr_left (fun q hq => ?_))
  by_cases hid : q.pageId = rid.pageId
  · have hsame : q = p := List.inj_on_of_nodup_map hwf.nodup hq (List.mem_of_find?_eq_some hp)
      (hid.trans (pageId_of_fetchPage hp).symm)
    rw [if_pos hid, hsame]
    refine congrArg (HeapPage.mk p.pageId) (List.ext_getElem? (fun i => ?_))
    rw [getElem?_mapSlots]
    by_cases hi : rid.slotNum = i
    · have hrid : (⟨p.pageId, i⟩ : RowId) = rid := by rw [← hi, pageId_of_fetchPage hp]
      rw [← hi] at hrid ⊢
      rw [List.getElem?_set_self (List.getElem?_eq_some_iff.mp hs).1, hs, hrid, Option.map_some,
        Slot.mapLive, if_pos rfl]
    · have hne : (⟨p.pageId, i⟩ : RowId) ≠ rid := fun e => hi (congrArg RowId.slotNum e).symm
      rw [List.getElem?_set_ne hi]
      simp only [if_neg hne]
      cases p.slots[i]? with
      | none => rfl
      | some s => cases s <;> rfl
  · rw [if_neg hid,
      mapSlots_eq_self (fun i row _ => if_neg (fun e => hid (congrArg RowId.pageId e)))]

end TableHeap

end MiniSql
