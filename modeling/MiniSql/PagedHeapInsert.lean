import MiniSql.PagedHeapChain

/-!
# What an insertion does to the heap

The tuples of a heap are those in the slots of its pages (`Laid.tupleAt_eq`).
An insertion takes a slot that was free, or a new one, and changes no other,
so the row id that it gives is fresh and every other tuple stays as it is;
the row is read back from its bytes since it has no `NULL`
(`insertTuple_refines`).
-/

namespace MiniSql

namespace PagedHeap

open TablePage

variable {P : Tuple → Prop} {h h' : PagedHeap} {ids : List PageId}
  {slots : PageId → List (Slot Tuple)} {id : PageId} {page : TablePage} {row : Tuple} {rid : RowId}
  {fields : List Field} {s : List (Slot Tuple)}

/-- A row of the schema without `NULL`. -/
def RowOf (schema : Schema) (row : List Field) : Prop :=
  List.Forall₂ Column.Admits schema.columns row ∧ ∀ f ∈ row, f.isNull = false

/-! ## The tuples of the pages -/

/-- The tuple in a slot of a page is the one that the slot map has there. -/
theorem slotAt_eq (hrep : Represents id page s) (i : ℕ) :
    slotAt page i = ((s[i]?).getD .free).map Tuple.bytes := by
  unfold slotAt
  by_cases hi : page.getTupleCount ≤ i
  · rw [if_pos (.inl hi), hrep.getElem?_eq_none hi]
    rfl
  obtain ⟨x, hx⟩ := hrep.exists_getElem? (Nat.lt_of_not_le hi)
  have hword := hrep.word i x hx
  have hbytes := hrep.bytes i x hx
  have hdel := hrep.isDeleted_word hx
  rw [hx, Option.getD_some, hword]
  cases x with
  | free =>
    rw [if_pos (.inr rfl)]
    rfl
  | live t =>
    have hpos : (Slot.live t).word ≠ 0 := t.pos.ne'
    rw [if_neg (not_or.mpr ⟨hi, hpos⟩), if_neg (fun hc => hdel.mp hc t rfl)]
    exact congrArg Slot.live hbytes
  | marked t =>
    have hlt : t.size < 2 ^ 31 := hrep.len_lt hx
    have hpos : (Slot.marked t).word ≠ 0 := (setDeletedFlag_pos t.size).ne'
    rw [if_neg (not_or.mpr ⟨hi, hpos⟩), if_pos (hdel.mpr nofun)]
    show Slot.marked (page.bytes _ (unsetDeletedFlag (setDeletedFlag t.size))) = _
    rw [unsetDeletedFlag_setDeletedFlag hlt]
    exact congrArg Slot.marked hbytes

/-- **The tuples of the heap** are those in the slots of its pages. -/
theorem Laid.tupleAt_eq (hl : Laid P h ids slots) (rid : RowId) :
    h.tupleAt rid = if rid.pageId ∈ ids then
      (((slots rid.pageId)[rid.slotNum]?).getD .free).map Tuple.bytes else .free := by
  unfold tupleAt
  split
  · rename_i hnone
    rw [if_neg (fun hid => by rw [hl.fetchPage hid] at hnone; cases hnone)]
  · rename_i page hfetch
    obtain ⟨hid, rfl⟩ := hl.fetchPage_eq_some.mp hfetch
    rw [if_pos hid]
    exact slotAt_eq (hl.pages _ hid) rid.slotNum

/-- One slot of one page has changed: every other tuple is as it was. -/
theorem Laid.tupleAt_of_ne (hl : Laid P h ids slots)
    (hid : id ∈ ids) {s : List (Slot Tuple)} {i : ℕ}
    (hl' : Laid P h' ids (Function.update slots id s))
    (hother : ∀ j, j ≠ i → s[j]? = (slots id)[j]?)
    (hrid : rid ≠ ⟨id, i⟩) : h'.tupleAt rid = h.tupleAt rid := by
  rw [hl.tupleAt_eq, hl'.tupleAt_eq]
  by_cases hpage : rid.pageId = id
  · have hslot : rid.slotNum ≠ i := fun hi => hrid (by rw [← hpage, ← hi])
    rw [if_pos (hpage ▸ hid), if_pos (hpage ▸ hid), hpage, Function.update_self, hother _ hslot]
  · rw [Function.update_of_ne hpage]

/-- A page has been added: every tuple outside it is as it was. -/
theorem Laid.tupleAt_of_append (hl : Laid P h ids slots) {new : PageId} (hnew : new ∉ ids)
    {s : List (Slot Tuple)} (hl' : Laid P h' (ids ++ [new]) (Function.update slots new s))
    (hfree : rid.pageId = new → (s[rid.slotNum]?).getD .free = .free) :
    h'.tupleAt rid = h.tupleAt rid := by
  rw [hl.tupleAt_eq, hl'.tupleAt_eq]
  by_cases hpage : rid.pageId = new
  · have hin : rid.pageId ∈ ids ++ [new] :=
      List.mem_append_right _ (List.mem_singleton.mpr hpage)
    have hout : rid.pageId ∉ ids := fun hmem => hnew (hpage ▸ hmem)
    rw [if_pos hin, if_neg hout, hpage, Function.update_self, hfree hpage]
    rfl
  · rw [Function.update_of_ne hpage]
    refine if_congr ?_ rfl rfl
    rw [List.mem_append, List.mem_singleton]
    exact or_iff_left hpage

/-! ## Reading rows -/

/-- A row without `NULL` is read back from its bytes. -/
theorem readRow_bytes {schema : Schema} (hrow : RowOf schema fields)
    (hbytes : Tuple.ofFields fields = some row) : readRow schema row.bytes = some fields := by
  unfold Tuple.ofFields at hbytes
  split at hbytes
  · cases hbytes
  · rename_i bytes n hser
    split at hbytes
    · rename_i hpos
      cases hbytes
      have hvalid : ∀ f ∈ fields, f.typeId ≠ .kTypeInvalid := fun f hf => by
        obtain ⟨c, hc⟩ := Schema.Matches.exists_admits (s := schema) (r := ⟨invalidRowId, fields⟩)
          hrow.1 hf
        exact hc.1 ▸ c.supported
      obtain ⟨bs, hbs, -⟩ := Row.serializeFields_eq hvalid
      have hread := Row.deserializeFields_serializeFields hrow.1 hrow.2 hser []
      rw [List.append_nil] at hread
      rw [hser] at hbs
      cases hbs
      unfold readRow
      rw [hread]
      exact if_pos (by rw [UInt32.toNat_ofNat', Nat.mod_eq_of_lt hpos.2])
    · cases hbytes

/-- The row of a live slot is read. -/
theorem getRow_of_live (hrep : Represents id page s) (hrid : rid ≠ invalidRowId)
    (hslot : s[rid.slotNum]? = some (.live row)) (schema : Schema) :
    page.getRow schema rid = (readRow schema row.bytes).map some := by
  have hget : page.getTuple rid = some (some row.bytes) := by
    have hstep := hrep.getTuple rid
    have hlive : SlotMap.getTuple s rid.slotNum = some row := by
      simp only [SlotMap.getTuple, hslot]
    simp only [SlotMap.step, if_neg hrid, hlive, Option.map_some] at hstep
    obtain ⟨r, hr, heq⟩ := Option.map_eq_some_iff.mp hstep
    cases heq
    exact hr
  unfold getRow
  rw [hget]

/-- `GetTuple` reads the bytes of a live tuple. -/
theorem Laid.getTuple_of_live (hl : Laid P h ids slots) (hid : rid.pageId ∈ ids)
    (hslot : (slots rid.pageId)[rid.slotNum]? = some (.live row)) :
    h.getTuple rid = (readRow h.schema row.bytes).map some := by
  have hrid : rid ≠ invalidRowId := fun hrid => hl.ne_invalid hid (by rw [hrid]; rfl)
  unfold PagedHeap.getTuple
  rw [hl.fetchPage hid]
  exact getRow_of_live (hl.pages _ hid) hrid hslot h.schema

/-! ## Insertions -/

/-- **What an insertion has done**, where it gives a row id: that row id
denoted nothing before, the row is under it, and the rest is as it was. -/
theorem Laid.insertTuple_some (hl : Laid (fun _ => True) h ids slots)
    (hrow : RowOf h.schema fields) {new : PageId}
    (hins : h.insertTuple fields new = some (h', some rid)) :
    h.tupleAt rid = .free ∧ h'.getTuple rid = some (some fields) ∧
      ∀ rid', rid' ≠ rid → h'.tupleAt rid' = h.tupleAt rid' := by
  obtain ⟨row, hbytes⟩ : ∃ row, Tuple.ofFields fields = some row := by
    refine Option.ne_none_iff_exists'.mp (fun hnone => ?_)
    rw [PagedHeap.insertTuple, hnone] at hins
    cases hins
  rcases hl.insertTuple hbytes trivial new with ⟨-, hnone⟩ | ⟨h'', r, hsome, hschema, hcases⟩
  · rw [hnone] at hins
    cases hins
  rw [hsome] at hins
  cases hins
  have hread : (readRow h'.schema row.bytes).map some = some (some fields) := by
    rw [hschema, readRow_bytes hrow hbytes]
    rfl
  rcases hcases with ⟨id, hid, s, i, hs, hrid, hl'⟩ | ⟨hnew, s, i, hs, hrid, hl'⟩
  · cases hrid
    obtain ⟨-, hfree, hlive, hother⟩ := SlotMap.insertTuple_eq_some hs
    refine ⟨?_, (hl'.getTuple_of_live hid (by rwa [Function.update_self])).trans hread,
      fun rid' hne => hl.tupleAt_of_ne hid hl' hother hne⟩
    rw [hl.tupleAt_eq, if_pos hid]
    show ((slots id)[i]?.getD .free).map Tuple.bytes = .free
    rcases hfree with hfree | hfree <;> rw [hfree] <;> rfl
  · cases i with
    | none => cases hrid
    | some i =>
      cases hrid
      obtain ⟨-, -, hlive, hother⟩ := SlotMap.insertTuple_eq_some hs
      have hin : new ∈ ids ++ [new] := List.mem_append_right _ List.mem_cons_self
      refine ⟨?_, (hl'.getTuple_of_live hin (by rwa [Function.update_self])).trans hread,
        fun rid' hne => hl.tupleAt_of_append hnew hl' (fun hpage => ?_)⟩
      · rw [hl.tupleAt_eq, if_neg hnew]
      · have hslot : rid'.slotNum ≠ i := fun hi => hne (by rw [← hpage, ← hi])
        rw [hother _ hslot]
        rfl

/-- **The heap under insertions.** After every sequence of calls on a new heap
the pages form one chain that ends, so that `InsertTuple` does; and where it
gives a row id, this denoted no tuple before, `GetTuple` now gives the row for
it, and every other tuple is unchanged. -/
theorem insertTuple_refines {schema : Schema} {h₀ : PagedHeap}
    (hcreate : create schema id = some h₀) {calls : List Call} {answers : List Answer}
    (hrun : Machine.run step h₀ calls = some (h, answers)) :
    (∃ ids, h.IsChain ids) ∧
    (∀ fields row new, Tuple.ofFields fields = some row → h.Fresh new →
      ∃ h' r, h.insertTuple fields new = some (h', r)) ∧
    ∀ fields new h' rid, RowOf schema fields → h.insertTuple fields new = some (h', some rid) →
      h.tupleAt rid = .free ∧ h'.getTuple rid = some (some fields) ∧
        ∀ rid', rid' ≠ rid → h'.tupleAt rid' = h.tupleAt rid' := by
  obtain ⟨hschema, ids, slots, hl⟩ := exists_laid_of_run hcreate (fun c _ => c.brings_true) hrun
  refine ⟨⟨ids, hl.isChain⟩, fun fields row new hrow hnew => ?_, fun fields new h' rid hrow hins =>
    hl.insertTuple_some (hschema ▸ hrow) hins⟩
  rcases hl.insertTuple hrow trivial new with ⟨hno, -⟩ | ⟨h', r, hsome, -, -⟩
  · exact absurd hnew hno
  · exact ⟨h', r, hsome⟩

/-- On the row `(7, 'ab')`, freed after its insertion: its slot is used again,
for `(8, 'ab')`. -/
theorem insertTuple_refines_freed : ∃ h h' : PagedHeap,
    h.insertTuple [.integer 8, .chars [97, 98]] 1 = some (h', some ⟨0, 0⟩) ∧
      (∃ ids, h.IsChain ids) ∧ h.tupleAt ⟨0, 0⟩ = .free ∧
      h'.getTuple ⟨0, 0⟩ = some (some [.integer 8, .chars [97, 98]]) := by
  have hrow : RowOf idNameSchema [.integer 8, .chars [97, 98]] :=
    ⟨List.Forall₂.cons ⟨rfl, nofun, nofun⟩
      (List.Forall₂.cons ⟨rfl, nofun, fun data h => by cases h; decide⟩ List.Forall₂.nil),
      by decide⟩
  have hruns : ((create idNameSchema 0).bind (fun h₀ => (Machine.run step h₀
      [.insertTuple abRow.fields 1, .markDelete ⟨0, 0⟩, .applyDelete ⟨0, 0⟩]).bind (fun r =>
        (r.1.insertTuple [.integer 8, .chars [97, 98]] 1).map Prod.snd))) =
      some (some ⟨0, 0⟩) := by decide +kernel
  obtain ⟨h₀, hcreate, hruns⟩ := Option.bind_eq_some_iff.mp hruns
  obtain ⟨⟨h, answers⟩, hrun, hruns⟩ := Option.bind_eq_some_iff.mp hruns
  obtain ⟨⟨h', rid⟩, hins, hrid⟩ := Option.map_eq_some_iff.mp hruns
  cases hrid
  obtain ⟨hchain, -, hsome⟩ := insertTuple_refines hcreate hrun
  obtain ⟨hfree, hget, -⟩ := hsome _ _ _ _ hrow hins
  exact ⟨h, h', hins, hchain, hfree, hget⟩

end PagedHeap

end MiniSql
