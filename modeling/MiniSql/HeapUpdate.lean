import MiniSql.TableIterator
import Mathlib.Data.Set.Card

/-!
# Updates of the table heap

`UpdateTuple` of the table heap writes the new row over the old one where the
page has room for it, and else deletes the old one and inserts the new one
somewhere else. It looks at neither of the results and returns `true`.

An insertion fails for one reason only: the row is larger than `SIZE_MAX_ROW`,
and fits in no page. Such a row is not written over another one either, so the
update deletes a row and puts none in its place; every other update keeps the
number of rows (`PagedHeap.losesNoRow_iff_fitsPage`).
-/

namespace MiniSql

namespace TablePage

/-- `SIZE_MAX_ROW`. -/
def sizeMaxRow : ℕ := pageSize - 24 - 8

end TablePage

/-- The row has some bytes, and a page without tuples has room for them. -/
def FitsPage (row : List Field) : Prop :=
  ∃ t, Tuple.ofFields row = some t ∧ t.size ≤ TablePage.sizeMaxRow

/-! ## Rows that fit in no page -/

namespace SlotMap

variable {α : Type} [Sized α] {slots : List (Slot α)} {row old : α} {i : ℕ}

open TablePage in
/-- A page without tuples takes what is not larger than `SIZE_MAX_ROW`. -/
theorem insertTuple_nil (h : Sized.size row ≤ sizeMaxRow) :
    insertTuple [] row = ([.live row], some 0) := by
  have hroom : room ([] : List (Slot α)) = sizeMaxRow + 8 := rfl
  unfold insertTuple
  rw [hroom, if_neg (by omega)]
  rfl

open TablePage in
/-- No page takes what is larger. -/
theorem insertTuple_of_oversized (h : sizeMaxRow < Sized.size row) :
    insertTuple slots row = (slots, none) := by
  have hroom : room slots ≤ sizeMaxRow + 8 :=
    (Nat.sub_le _ _).trans (Nat.sub_le_sub_right (Nat.sub_le _ _) 24)
  exact if_pos (by omega)

open TablePage in
/-- Neither is it written over another tuple. -/
theorem updateTuple_of_oversized (hpage : 24 + 8 * slots.length + used slots ≤ pageSize)
    (hslot : slots[i]? = some (.live old)) (h : sizeMaxRow < Sized.size row) :
    updateTuple slots row i = (slots, 0, none) := by
  have hused : Sized.size old ≤ used slots := len_le_used hslot
  have hlen : i < slots.length := (List.getElem?_eq_some_iff.mp hslot).1
  have hroom : room slots + Sized.size old ≤ sizeMaxRow := by
    unfold room sizeMaxRow
    omega
  unfold updateTuple
  rw [hslot]
  exact if_pos (hroom.trans_lt h)

end SlotMap

namespace PagedHeap

open TablePage

variable {P : Tuple → Prop} {h h' : PagedHeap} {ids : List PageId}
  {slots : PageId → List (Slot Tuple)} {id newPageId : PageId} {row : List Field} {rid : RowId}
  {t old : Tuple} {schema : Schema}

/-! ## What an update is for -/

/-- The row ids with a live tuple. -/
def liveTuples (h : PagedHeap) : Set RowId := {q | (h.tupleAt q).isLive = true}

/-- **An update loses no row**: where it returns `true`, the row is there under
the row id that it has been given, and there are as many live tuples as before;
where it returns `false`, nothing has changed. -/
def LosesNoRow (h : PagedHeap) (row : List Field) (rid : RowId) (newPageId : PageId) : Prop :=
  ∃ h' b r, h.updateTuple row rid newPageId = some (h', b, r) ∧
    (b = true → ∃ rid', r = some rid' ∧ h'.getTuple rid' = some (some row) ∧
      h'.liveTuples.encard = h.liveTuples.encard ∧
      ∀ q, q ≠ rid → q ≠ rid' → h'.tupleAt q = h.tupleAt q) ∧
    (b = false → ∀ q, h'.tupleAt q = h.tupleAt q)

/-- One live tuple has moved. -/
theorem encard_liveTuples {rid' : RowId} (hlive : rid ∈ h.liveTuples)
    (hlive' : rid' ∈ h'.liveTuples) (hfree : rid' ≠ rid → rid' ∉ h.liveTuples)
    (hgone : rid' ≠ rid → rid ∉ h'.liveTuples)
    (hother : ∀ q, q ≠ rid → q ≠ rid' → h'.tupleAt q = h.tupleAt q) :
    h'.liveTuples.encard = h.liveTuples.encard := by
  have hsame : h'.liveTuples \ {rid'} = h.liveTuples \ {rid} := by
    ext q
    simp only [Set.mem_sdiff, Set.mem_singleton_iff]
    by_cases hq : q = rid
    · subst hq
      exact iff_of_false (fun hc => hgone (Ne.symm hc.2) hc.1) (fun hc => hc.2 rfl)
    by_cases hq' : q = rid'
    · subst hq'
      exact iff_of_false (fun hc => hc.2 rfl) (fun hc => hfree hq hc.1)
    · rw [liveTuples, liveTuples, Set.mem_ofPred_eq, Set.mem_ofPred_eq, hother q hq hq']
      exact and_congr_right (fun _ => iff_of_true hq' hq)
  rw [← Set.encard_sdiff_singleton_add_one hlive', hsame, Set.encard_sdiff_singleton_add_one hlive]

/-! ## The calls on the slots of a page -/

theorem Laid.mono {Q : Tuple → Prop} (hl : Laid P h ids slots) (hPQ : ∀ t, P t → Q t) :
    Laid Q h ids slots :=
  { hl with
    holds := fun id hid s hs => by
      have hP := hl.holds id hid s hs
      cases s with
      | free => trivial
      | live t | marked t => exact hPQ t hP }

/-- What the slots of a page allow is done on the page. -/
theorem Laid.step_of_slots (hl : Laid P h ids slots) (hid : id ∈ ids) {call : TableCall}
    {a : TableAnswer} {s : List (Slot Tuple)} (hs : SlotMap.step id (slots id) call = some (s, a))
    (hcall : SlotMap.Inserts P call) :
    ∃ page, TablePage.step (h.bufferPool.data id) call = some (page, a) ∧
      Laid P { h with bufferPool := h.bufferPool.writePage id page } ids
        (Function.update slots id s) := by
  rcases (hl.pages id hid).step call with ⟨-, hnone⟩ | ⟨page, s', a', hpage, hs', -⟩
  · rw [hnone] at hs
    cases hs
  · rw [hs'] at hs
    cases hs
    obtain ⟨s, hslots, hlaid⟩ := hl.step hid hpage hcall
    rw [hs'] at hslots
    cases hslots
    exact ⟨page, hpage, hlaid⟩

/-- A page has room for its tuples. -/
theorem Laid.used_le (hl : Laid P h ids slots) (hid : id ∈ ids) :
    24 + 8 * (slots id).length + SlotMap.used (slots id) ≤ pageSize := by
  have hrep := hl.pages id hid
  have hroom := hrep.room
  have htotal := hrep.total
  omega

/-- A row that is read is a live tuple. -/
theorem Laid.mem_liveTuples (hl : Laid P h ids slots)
    (hget : h.getTuple rid = some (some row)) : rid ∈ h.liveTuples := by
  obtain ⟨page, hfetch, hrow⟩ := Option.bind_eq_some_iff.mp hget
  obtain ⟨hid, rfl⟩ := hl.fetchPage_eq_some.mp hfetch
  rw [liveTuples, Set.mem_ofPred_eq, hl.tupleAt_eq, if_pos hid, Slot.isLive_map]
  have hstep := (hl.pages _ hid).getTuple rid
  unfold getRow at hrow
  cases hpage : TablePage.getTuple (h.bufferPool.data rid.pageId) rid with
  | none =>
    rw [hpage] at hrow
    cases hrow
  | some bytes =>
    rw [hpage] at hrow hstep
    cases bytes with
    | none => cases hrow
    | some bytes =>
      simp only [SlotMap.step] at hstep
      split at hstep
      · cases hstep
      · obtain ⟨-, hgot⟩ := Prod.mk.inj (Option.some.inj hstep)
        unfold SlotMap.getTuple at hgot
        split at hgot
        · rename_i t ht
          rw [ht]
          rfl
        · cases hgot

/-! ## The two ways of an update -/

/-- The new row is written over the old one. -/
theorem Laid.updateTuple_inPlace (hl : Laid P h ids slots) (hid : rid.pageId ∈ ids)
    (hslot : (slots rid.pageId)[rid.slotNum]? = some (.live old)) {fields : List Field}
    (hread : readRow h.schema old.bytes = some fields) (hrow : Tuple.ofFields row = some t)
    (hP : P t) (hroom : ¬ SlotMap.room (slots rid.pageId) + old.size < t.size)
    (newPageId : PageId) :
    ∃ h', h.updateTuple row rid newPageId = some (h', true, some rid) ∧ h'.schema = h.schema ∧
      Laid P h' ids (Function.update slots rid.pageId
        ((slots rid.pageId).set rid.slotNum (.live t))) := by
  have hvalid : rid ≠ invalidRowId := fun hrid => hl.ne_invalid hid (by rw [hrid]; rfl)
  have hs : SlotMap.step rid.pageId (slots rid.pageId) (.updateTuple t rid) =
      some ((slots rid.pageId).set rid.slotNum (.live t), .updated 1 (some old.bytes)) := by
    have hup : SlotMap.updateTuple (slots rid.pageId) t rid.slotNum =
        ((slots rid.pageId).set rid.slotNum (.live t), 1, some old) := by
      unfold SlotMap.updateTuple
      rw [hslot]
      exact if_neg hroom
    simp only [SlotMap.step, if_neg hvalid, hup, Option.map_some]
  obtain ⟨page, hpage, hlaid⟩ := hl.step_of_slots hid hs hP
  obtain ⟨⟨page', res, oldRow⟩, hup, heq⟩ := Option.map_eq_some_iff.mp hpage
  cases heq
  refine ⟨{ h with bufferPool := h.bufferPool.writePage rid.pageId page' }, ?_, rfl, hlaid⟩
  unfold PagedHeap.updateTuple
  rw [hl.fetchPage hid]
  simp only [Option.bind_eq_bind, Option.bind_some, getRow_of_live (hl.pages _ hid) hvalid hslot,
    hread, Option.map_some, hrow, hup]
  rfl

/-- The old row is deleted and the new one is inserted somewhere. -/
theorem Laid.updateTuple_moved (hl : Laid P h ids slots) (hid : rid.pageId ∈ ids)
    (hslot : (slots rid.pageId)[rid.slotNum]? = some (.live old)) {fields : List Field}
    (hread : readRow h.schema old.bytes = some fields) (hrow : Tuple.ofFields row = some t)
    (hroom : SlotMap.updateTuple (slots rid.pageId) t rid.slotNum =
      (slots rid.pageId, 0, none)) (newPageId : PageId) :
    ∃ h₂, h₂.schema = h.schema ∧ h.updateTuple row rid newPageId =
        (h₂.insertTuple row newPageId).map (fun r => (r.1, true, r.2)) ∧
      Laid P h₂ ids (Function.update slots rid.pageId
        ((slots rid.pageId).set rid.slotNum .free)) := by
  have hvalid : rid ≠ invalidRowId := fun hrid => hl.ne_invalid hid (by rw [hrid]; rfl)
  have hlt : rid.slotNum < (slots rid.pageId).length := (List.getElem?_eq_some_iff.mp hslot).1
  have hs : SlotMap.step rid.pageId (slots rid.pageId) (.updateTuple t rid) =
      some (slots rid.pageId, .updated 0 none) := by
    simp only [SlotMap.step, if_neg hvalid, hroom, Option.map_none]
  -- The page refuses the row, and the old one is marked and then freed.
  have htrue : Laid (fun _ => True) h ids slots := hl.mono (fun _ _ => trivial)
  obtain ⟨page, hpage, -⟩ := htrue.step_of_slots hid hs trivial
  obtain ⟨⟨page', res, oldRow⟩, hup, heq⟩ := Option.map_eq_some_iff.mp hpage
  cases heq
  have hmark : SlotMap.step rid.pageId (slots rid.pageId) (.markDelete rid) =
      some ((slots rid.pageId).set rid.slotNum (.marked old), .marked true) := by
    simp only [SlotMap.step, SlotMap.markDelete, hslot]
  obtain ⟨page₁, hpage₁, hl₁⟩ := hl.step_of_slots hid hmark trivial
  have heq₁ : (TablePage.markDelete (h.bufferPool.data rid.pageId) rid).1 = page₁ :=
    congrArg Prod.fst (Option.some.inj hpage₁)
  have happly : SlotMap.step rid.pageId (Function.update slots rid.pageId
      ((slots rid.pageId).set rid.slotNum (.marked old)) rid.pageId) (.applyDelete rid) =
        some ((slots rid.pageId).set rid.slotNum .free, .done) := by
    rw [Function.update_self]
    simp only [SlotMap.step, SlotMap.applyDelete, List.getElem?_set_self hlt, List.set_set,
      Option.map_some]
  obtain ⟨page₂, hpage₂, hl₂⟩ := hl₁.step_of_slots hid happly trivial
  obtain ⟨_, happlied, heq₂⟩ := Option.map_eq_some_iff.mp hpage₂
  cases heq₂
  rw [Function.update_idem] at hl₂
  refine ⟨{ h with bufferPool :=
    (h.bufferPool.writePage rid.pageId page₁).writePage rid.pageId page₂ }, rfl, ?_, hl₂⟩
  unfold PagedHeap.updateTuple
  rw [hl.fetchPage hid]
  simp only [Option.bind_eq_bind, Option.bind_some, getRow_of_live (hl.pages _ hid) hvalid hslot,
    hread, Option.map_some, hrow, hup]
  have hmarked : h.markDelete rid =
      some { h with bufferPool := h.bufferPool.writePage rid.pageId page₁ } := by
    unfold PagedHeap.markDelete
    rw [hl.fetchPage hid, Option.map_some, heq₁]
  have hfreed : PagedHeap.applyDelete
      { h with bufferPool := h.bufferPool.writePage rid.pageId page₁ } rid =
        some { h with bufferPool :=
          (h.bufferPool.writePage rid.pageId page₁).writePage rid.pageId page₂ } := by
    unfold PagedHeap.applyDelete
    rw [hl₁.fetchPage hid]
    simp only [Option.bind_eq_bind, Option.bind_some, happlied]
  show (if (0 : ℤ) = 0 then _ else _) = _
  rw [if_pos rfl, hmarked, Option.bind_some, hfreed, Option.bind_some]
  exact Option.map_eq_bind.symm

/-! ## When no row is lost -/

/-- The tuple that has been deleted is gone, and no other one. -/
theorem Laid.tupleAt_freed (hl : Laid P h ids slots) (hid : rid.pageId ∈ ids)
    (hslot : (slots rid.pageId)[rid.slotNum]? = some (.live old))
    (hl' : Laid P h' ids (Function.update slots rid.pageId
      ((slots rid.pageId).set rid.slotNum .free))) :
    h'.tupleAt rid = .free ∧ ∀ q, q ≠ rid → h'.tupleAt q = h.tupleAt q := by
  refine ⟨?_, fun q hq => hl.tupleAt_of_ne hid hl' (fun j hj => List.getElem?_set_ne hj.symm) hq⟩
  have hlt : rid.slotNum < (slots rid.pageId).length := (List.getElem?_eq_some_iff.mp hslot).1
  rw [hl'.tupleAt_eq, if_pos hid, Function.update_self, List.getElem?_set_self hlt]
  rfl

/-- The live tuple of a row id. -/
theorem Laid.exists_live (hl : Laid P h ids slots) (hlive : rid ∈ h.liveTuples) :
    rid.pageId ∈ ids ∧ ∃ old, (slots rid.pageId)[rid.slotNum]? = some (.live old) ∧ P old := by
  rw [liveTuples, Set.mem_ofPred_eq, hl.tupleAt_eq] at hlive
  by_cases hid : rid.pageId ∈ ids
  · refine ⟨hid, ?_⟩
    rw [if_pos hid, Slot.isLive_map] at hlive
    obtain ⟨old, hold⟩ := Slot.isLive_iff.mp hlive
    cases hslot : (slots rid.pageId)[rid.slotNum]? with
    | none =>
      rw [hslot] at hold
      cases hold
    | some x =>
      rw [hslot] at hold
      cases hold
      exact ⟨old, rfl, hl.holds _ hid _ (List.mem_of_getElem? hslot)⟩
  · rw [if_neg hid] at hlive
    cases hlive

/-- What an insertion does after the old row has been deleted. -/
theorem Laid.losesNoRow_of_moved {h₂ : PagedHeap} (hl : Laid (fun _ => True) h ids slots)
    (hid : rid.pageId ∈ ids)
    (hslot : (slots rid.pageId)[rid.slotNum]? = some (.live old)) (hrow : RowOf h.schema row)
    (hschema : h₂.schema = h.schema)
    (hl₂ : Laid (fun _ => True) h₂ ids (Function.update slots rid.pageId
      ((slots rid.pageId).set rid.slotNum .free))) {rid' : RowId}
    (hins : h₂.insertTuple row newPageId = some (h', some rid')) :
    h'.getTuple rid' = some (some row) ∧ h'.liveTuples.encard = h.liveTuples.encard ∧
      ∀ q, q ≠ rid → q ≠ rid' → h'.tupleAt q = h.tupleAt q := by
  obtain ⟨hgone, hsame⟩ := hl.tupleAt_freed hid hslot hl₂
  obtain ⟨hfree, hget, hother⟩ := hl₂.insertTuple_some (hschema ▸ hrow) hins
  obtain ⟨-, ids', slots', hl'⟩ := hl₂.of_insertTuple (fun _ _ => trivial) hins
  have hlive : rid ∈ h.liveTuples := by
    rw [liveTuples, Set.mem_ofPred_eq, hl.tupleAt_eq, if_pos hid, hslot]
    rfl
  have hothers : ∀ q, q ≠ rid → q ≠ rid' → h'.tupleAt q = h.tupleAt q :=
    fun q hq hq' => (hother q hq').trans (hsame q hq)
  refine ⟨hget, encard_liveTuples hlive (hl'.mem_liveTuples hget) (fun hne hmem => ?_)
    (fun hne hmem => ?_) hothers, hothers⟩
  · rw [liveTuples, Set.mem_ofPred_eq, ← hsame rid' hne, hfree] at hmem
    cases hmem
  · rw [liveTuples, Set.mem_ofPred_eq, hother rid (Ne.symm hne), hgone] at hmem
    cases hmem

/-- **A row that fits in no page** gets no row id, but a page of its own at the
end of the chain, which stays empty. -/
theorem Laid.insertTuple_of_oversized (hl : Laid (fun _ => True) h ids slots)
    (hrow : Tuple.ofFields row = some t) (hsize : sizeMaxRow < t.size) {r : Option RowId}
    (hins : h.insertTuple row newPageId = some (h', r)) :
    r = none ∧ newPageId ∉ ids ∧
      Laid (fun _ => True) h' (ids ++ [newPageId]) (Function.update slots newPageId []) := by
  have hrefuse : ∀ s : List (Slot Tuple), SlotMap.insertTuple s t = (s, none) := fun s =>
    SlotMap.insertTuple_of_oversized hsize
  rcases hl.insertTuple hrow trivial newPageId with ⟨-, hnone⟩ | ⟨h'', r', hsome, -, hcases⟩
  · rw [hnone] at hins
    cases hins
  rw [hsome] at hins
  cases hins
  rcases hcases with ⟨id, -, s, i, hs, -, -⟩ | ⟨hnew, s, i, hs, hr, hl'⟩
  · rw [hrefuse] at hs
    cases hs
  · rw [hrefuse] at hs
    cases hs
    exact ⟨hr, hnew, hl'⟩

/-- A row that fits in a page gets a row id. -/
theorem Laid.exists_insertTuple (hl : Laid (fun _ => True) h ids slots)
    (hrow : Tuple.ofFields row = some t) (hsize : t.size ≤ sizeMaxRow)
    (hnew : h.Fresh newPageId) :
    ∃ h' rid', h.insertTuple row newPageId = some (h', some rid') := by
  rcases hl.insertTuple hrow trivial newPageId with ⟨hno, -⟩ | ⟨h', r, hsome, -, hcases⟩
  · exact absurd hnew hno
  rcases hcases with ⟨id, -, s, i, -, hr, -⟩ | ⟨-, s, i, hs, hr, -⟩
  · exact ⟨h', _, hr ▸ hsome⟩
  · rw [SlotMap.insertTuple_nil hsize] at hs
    cases hs
    exact ⟨h', _, hr ▸ hsome⟩

/-- **When an update loses no row**: in every state of a heap of rows without
`NULL`, exactly when the new row fits in a page. -/
theorem losesNoRow_iff_fitsPage {h₀ : PagedHeap} (hcreate : create schema id = some h₀)
    {calls : List Call} {answers : List Answer} (hcalls : ∀ c ∈ calls, c.RowsOf schema)
    (hrun : Machine.run step h₀ calls = some (h, answers)) (hrow : RowOf schema row)
    (hlive : (h.tupleAt rid).isLive = true) (hnew : h.Fresh newPageId) :
    h.LosesNoRow row rid newPageId ↔ FitsPage row := by
  obtain ⟨rfl, ids, slots, hl⟩ :=
    exists_laid_of_run hcreate (fun c hc => (hcalls c hc).brings) hrun
  have htrue : Laid (fun _ => True) h ids slots := hl.mono (fun _ _ => trivial)
  obtain ⟨hid, old, hslot, fields, hread⟩ := hl.exists_live hlive
  constructor
  · rintro ⟨h', b, r, hup, hdone, -⟩
    obtain ⟨t, ht⟩ : ∃ t, Tuple.ofFields row = some t := by
      simp only [PagedHeap.updateTuple, Option.bind_eq_bind, Option.bind_eq_some_iff] at hup
      obtain ⟨-, -, -, -, t, ht, -⟩ := hup
      exact ⟨t, ht⟩
    refine ⟨t, ht, not_lt.mp (fun hsize => ?_)⟩
    obtain ⟨h₂, -, heq, hl₂⟩ := htrue.updateTuple_moved hid hslot hread ht
      (SlotMap.updateTuple_of_oversized (hl.used_le hid) hslot hsize) newPageId
    rw [heq] at hup
    obtain ⟨⟨h₃, r₃⟩, hins, heq⟩ := Option.map_eq_some_iff.mp hup
    cases heq
    obtain ⟨rid', hr, -⟩ := hdone rfl
    rw [(hl₂.insertTuple_of_oversized ht hsize hins).1] at hr
    cases hr
  · rintro ⟨t, ht, hsize⟩
    by_cases hroom : SlotMap.room (slots rid.pageId) + old.size < t.size
    · have hmoved : SlotMap.updateTuple (slots rid.pageId) t rid.slotNum =
          (slots rid.pageId, 0, none) := by
        unfold SlotMap.updateTuple
        rw [hslot]
        exact if_pos hroom
      obtain ⟨h₂, hschema, heq, hl₂⟩ :=
        htrue.updateTuple_moved hid hslot hread ht hmoved newPageId
      have hnew₂ : h₂.Fresh newPageId :=
        ⟨fun hin => hnew.1 ((hl.inUse _).mpr ((hl₂.inUse _).mp hin)), hnew.2⟩
      obtain ⟨h', rid', hins⟩ := hl₂.exists_insertTuple ht hsize hnew₂
      refine ⟨h', true, some rid', ?_, fun _ => ⟨rid', rfl, ?_⟩,
        fun hfailed => absurd hfailed.symm Bool.false_ne_true⟩
      · rw [heq, hins]
        rfl
      · exact htrue.losesNoRow_of_moved hid hslot hrow hschema hl₂ hins
    · obtain ⟨h', hup, hschema, hl'⟩ :=
        hl.updateTuple_inPlace hid hslot hread ht ⟨row, readRow_bytes hrow ht⟩ hroom newPageId
      have hlt : rid.slotNum < (slots rid.pageId).length := (List.getElem?_eq_some_iff.mp hslot).1
      have hget : h'.getTuple rid = some (some row) := by
        rw [hl'.getTuple_of_live hid (by rw [Function.update_self, List.getElem?_set_self hlt]),
          hschema, readRow_bytes hrow ht]
        rfl
      have hother : ∀ q, q ≠ rid → q ≠ rid → h'.tupleAt q = h.tupleAt q := fun q hq _ =>
        hl.tupleAt_of_ne hid hl' (fun j hj => List.getElem?_set_ne hj.symm) hq
      exact ⟨h', true, some rid, hup, fun _ => ⟨rid, rfl, hget,
        encard_liveTuples hlive (hl'.mem_liveTuples hget) (fun hne => absurd rfl hne)
          (fun hne => absurd rfl hne) hother, hother⟩,
        fun hfailed => absurd hfailed.symm Bool.false_ne_true⟩

/-- A table of two `CHAR(2040)` columns. -/
def twoWideSchema : Schema :=
  ⟨[⟨[97], .kTypeChar, 2040, 0, false, false, TypeId.char_supported⟩,
    ⟨[98], .kTypeChar, 2040, 1, false, false, TypeId.char_supported⟩]⟩

/-- A row of it, with strings of the given length. -/
def twoWideRow (n : ℕ) : List Field :=
  [.chars (List.replicate n 97), .chars (List.replicate n 98)]

theorem rowOf_twoWideRow {n : ℕ} (hn : n < varcharMaxLen) : RowOf twoWideSchema (twoWideRow n) := by
  have hadmits : ∀ (c : Column) (b : UInt8), c.type = .kTypeChar →
      c.Admits (.chars (List.replicate n b)) := fun c b hc =>
    ⟨hc.symm, nofun, fun data hdata => by
      cases hdata
      rwa [List.length_replicate]⟩
  refine ⟨.cons (hadmits _ _ rfl) (.cons (hadmits _ _ rfl) .nil), fun f hf => ?_⟩
  rcases List.mem_cons.mp hf with rfl | hf
  · rfl
  · rw [List.mem_singleton.mp hf]
    rfl

/-- A row of two strings of 2000 bytes is moved to another page. -/
theorem losesNoRow_iff_fitsPage_twoWide : ∃ h₀ h answers, create twoWideSchema 0 = some h₀ ∧
    Machine.run step h₀ [.insertTuple (twoWideRow 100) 1, .insertTuple (twoWideRow 100) 1] =
      some (h, answers) ∧ h.LosesNoRow (twoWideRow 2000) ⟨0, 0⟩ 1 := by
  have hruns : ((create twoWideSchema 0).bind (fun h₀ => (Machine.run step h₀
      [.insertTuple (twoWideRow 100) 1, .insertTuple (twoWideRow 100) 1]).map (fun r =>
        ((r.1.tupleAt ⟨0, 0⟩).isLive, r.1.bufferPool.allocated)))) = some (true, [0]) := by
    decide +kernel
  obtain ⟨h₀, hcreate, hruns⟩ := Option.bind_eq_some_iff.mp hruns
  obtain ⟨⟨h, answers⟩, hrun, hends⟩ := Option.map_eq_some_iff.mp hruns
  obtain ⟨hlive, halloc⟩ := Prod.mk.inj hends
  refine ⟨h₀, h, answers, hcreate, hrun, ?_⟩
  have hnew : h.Fresh 1 := ⟨by rw [halloc]; decide, by decide⟩
  have hcalls : ∀ c ∈ [Call.insertTuple (twoWideRow 100) 1, .insertTuple (twoWideRow 100) 1],
      c.RowsOf twoWideSchema := fun c hc => by
    rcases List.mem_cons.mp hc with rfl | hc
    · exact rowOf_twoWideRow (by decide)
    · rw [List.mem_singleton.mp hc]
      exact rowOf_twoWideRow (by decide)
  refine (losesNoRow_iff_fitsPage hcreate hcalls hrun (rowOf_twoWideRow (by decide)) hlive
    hnew).mpr ?_
  have hsize : (Tuple.ofFields (twoWideRow 2000)).map Tuple.size = some 4008 := by decide +kernel
  obtain ⟨t, ht, hsize⟩ := Option.map_eq_some_iff.mp hsize
  exact ⟨t, ht, hsize ▸ by decide⟩

/-- With strings of 2040 bytes the row fits in no page, and is lost. -/
theorem not_losesNoRow : ¬ ∀ (schema : Schema) (h₀ h : PagedHeap) (calls : List Call)
    (answers : List Answer) (row : List Field) (rid : RowId) (newPageId : PageId),
    create schema 0 = some h₀ → (∀ c ∈ calls, c.RowsOf schema) →
    Machine.run step h₀ calls = some (h, answers) → RowOf schema row →
    (h.tupleAt rid).isLive = true → h.Fresh newPageId → h.LosesNoRow row rid newPageId := by
  intro hall
  have hruns : ((create twoWideSchema 0).bind (fun h₀ => (Machine.run step h₀
      [.insertTuple (twoWideRow 0) 1]).bind (fun r =>
        (r.1.updateTuple (twoWideRow 2040) ⟨0, 0⟩ 1).map (fun u =>
          ((r.1.tupleAt ⟨0, 0⟩).isLive, r.1.bufferPool.allocated, u.2))))) =
      some (true, [0], true, none) := by
    decide +kernel
  obtain ⟨h₀, hcreate, hruns⟩ := Option.bind_eq_some_iff.mp hruns
  obtain ⟨⟨h, answers⟩, hrun, hruns⟩ := Option.bind_eq_some_iff.mp hruns
  obtain ⟨u, hup, hends⟩ := Option.map_eq_some_iff.mp hruns
  obtain ⟨hlive, hends⟩ := Prod.mk.inj hends
  obtain ⟨halloc, hanswer⟩ := Prod.mk.inj hends
  have hnew : h.Fresh 1 := ⟨by rw [halloc]; decide, by decide⟩
  have hcalls : ∀ c ∈ [Call.insertTuple (twoWideRow 0) 1], c.RowsOf twoWideSchema := fun c hc => by
    rw [List.mem_singleton.mp hc]
    exact rowOf_twoWideRow (by decide)
  obtain ⟨h', b, r, hup', hdone, -⟩ := hall twoWideSchema h₀ h _ answers (twoWideRow 2040) ⟨0, 0⟩ 1
    hcreate hcalls hrun (rowOf_twoWideRow (by decide)) hlive hnew
  rw [hup] at hup'
  cases hup'
  obtain ⟨rfl, rfl⟩ := Prod.mk.inj hanswer
  obtain ⟨rid', hr, -⟩ := hdone rfl
  cases hr

end PagedHeap

end MiniSql
