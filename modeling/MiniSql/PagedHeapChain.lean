import MiniSql.PagedHeap
import Mathlib.Data.List.Perm.Subperm

/-!
# The chain of a heap and its slots

After every sequence of calls the pages of a heap form one chain and each of
them represents a list of slots (`Laid`). An operation on the tuples replaces
the slots of one page and leaves the links alone (`Laid.write`); only
`InsertTuple` makes the chain longer, by a page at its end (`Laid.append`).

From this, `InsertTuple` always comes to an end: its loop visits each page of
the chain at most once (`Laid.insertLoop`). The row id that it gives denoted
no tuple before, and no other tuple changes
(`insertTuple_refines`).
-/

namespace MiniSql

namespace PagedHeap

open TablePage

variable {P : Tuple → Prop} {h h' : PagedHeap} {p p' : PageStore} {ids : List PageId}
  {slots : PageId → List (Slot Tuple)} {prev cur id : PageId} {page : TablePage} {row : Tuple}

/-! ## Links -/

/-- The links are in the headers of the pages of the chain. -/
theorem Linked.congr (hl : Linked p prev cur ids)
    (hsame : ∀ id ∈ ids, ∀ b < 16, p'.data id b = p.data id b) : Linked p' prev cur ids := by
  induction ids generalizing prev cur with
  | nil => exact hl
  | cons id ids ih =>
    obtain ⟨hcur, hprev, hrest⟩ := hl
    obtain ⟨hprev', hnext'⟩ := links_congr (hsame id List.mem_cons_self)
    refine ⟨hcur, hprev'.trans hprev, ?_⟩
    rw [hnext']
    exact ih hrest (fun q hq => hsame q (List.mem_cons_of_mem id hq))

/-- A page that is linked to the last one of a chain makes it longer. -/
theorem Linked.append {pre : List PageId} {last new : PageId}
    (hl : Linked p prev cur (pre ++ [last])) (hnodup : (pre ++ [last]).Nodup)
    (hpre : ∀ id ∈ pre, ∀ b < 16, p'.data id b = p.data id b)
    (hlast : getPrevPageId (p'.data last) = getPrevPageId (p.data last) ∧
      getNextPageId (p'.data last) = new)
    (hnew : getPrevPageId (p'.data new) = last ∧ getNextPageId (p'.data new) = invalidPageId) :
    Linked p' prev cur (pre ++ [last] ++ [new]) := by
  induction pre generalizing prev cur with
  | nil =>
    obtain ⟨hcur, hprev, -⟩ := hl
    exact ⟨hcur, hlast.1.trans hprev, hlast.2, hnew.1, hnew.2⟩
  | cons id pre ih =>
    obtain ⟨hcur, hprev, hrest⟩ := hl
    obtain ⟨hprev', hnext'⟩ := links_congr (hpre id List.mem_cons_self)
    refine ⟨hcur, hprev'.trans hprev, ?_⟩
    rw [hnext']
    exact ih hrest (List.nodup_cons.mp hnodup).2
      (fun q hq => hpre q (List.mem_cons_of_mem id hq))

/-! ## The invariant -/

/-- **The pages of the heap form a chain, and each represents its slots**, in
which the tuples satisfy a condition. -/
structure Laid (P : Tuple → Prop) (h : PagedHeap) (ids : List PageId)
    (slots : PageId → List (Slot Tuple)) : Prop where
  /-- The links lead through the pages. -/
  linked : Linked h.bufferPool invalidPageId h.firstPageId ids
  /-- No page is met twice. -/
  nodup : ids.Nodup
  /-- There is a first page. -/
  ne_nil : ids ≠ []
  /-- The pages of the chain are those of the heap. -/
  inUse : ∀ id, id ∈ h.bufferPool.allocated ↔ id ∈ ids
  /-- Their ids are page ids. -/
  range : ∀ id ∈ ids, 0 ≤ id ∧ id < 2 ^ 31
  /-- Each page represents its slots. -/
  pages : ∀ id ∈ ids, Represents id (h.bufferPool.data id) (slots id)
  /-- The tuples satisfy the condition. -/
  holds : ∀ id ∈ ids, ∀ s ∈ slots id, s.Holds P

namespace Laid

theorem ne_invalid (hl : Laid P h ids slots) (hid : id ∈ ids) : id ≠ invalidPageId := by
  rintro rfl
  exact absurd (hl.range _ hid).1 (by decide)

theorem isChain (hl : Laid P h ids slots) : h.IsChain ids :=
  ⟨hl.nodup, fun id hid => ⟨(hl.inUse id).mpr hid, hl.ne_invalid hid⟩, hl.linked⟩

theorem fetchPage_eq_some (hl : Laid P h ids slots) :
    h.bufferPool.fetchPage id = some page ↔ id ∈ ids ∧ h.bufferPool.data id = page := by
  rw [PageStore.fetchPage_eq_some, hl.inUse]

theorem fetchPage (hl : Laid P h ids slots) (hid : id ∈ ids) :
    h.bufferPool.fetchPage id = some (h.bufferPool.data id) :=
  hl.fetchPage_eq_some.mpr ⟨hid, rfl⟩

/-- The chain has no more pages than are in use. -/
theorem length_le (hl : Laid P h ids slots) : ids.length ≤ h.bufferPool.allocated.length :=
  (hl.nodup.subperm (fun id hid => (hl.inUse id).mpr hid)).length_le

/-- **A page is written back** with the same links and other slots. -/
theorem write (hl : Laid P h ids slots) (_hid : id ∈ ids) {s : List (Slot Tuple)}
    (hrep : Represents id page s) (hheader : ∀ b < 16, page b = h.bufferPool.data id b)
    (hholds : ∀ x ∈ s, x.Holds P) :
    Laid P { h with bufferPool := h.bufferPool.writePage id page } ids
      (Function.update slots id s) where
  linked := hl.linked.congr (fun q _ b hb => by
    by_cases hq : q = id
    · rw [hq, PageStore.data_writePage_self]
      exact hheader b hb
    · rw [PageStore.data_writePage_of_ne hq])
  nodup := hl.nodup
  ne_nil := hl.ne_nil
  inUse := hl.inUse
  range := hl.range
  pages q hq := by
    by_cases hqid : q = id
    · rw [hqid, PageStore.data_writePage_self, Function.update_self]
      exact hrep
    · rw [PageStore.data_writePage_of_ne hqid, Function.update_of_ne hqid]
      exact hl.pages q hq
  holds q hq := by
    by_cases hqid : q = id
    · rw [hqid, Function.update_self]
      exact hholds
    · rw [Function.update_of_ne hqid]
      exact hl.holds q hq

/-- A call on one of the pages. -/
theorem step (hl : Laid P h ids slots) (hid : id ∈ ids) {call : TableCall} {a : TableAnswer}
    (hs : TablePage.step (h.bufferPool.data id) call = some (page, a))
    (hcall : SlotMap.Inserts P call) : ∃ s, SlotMap.step id (slots id) call = some (s, a) ∧
      Laid P { h with bufferPool := h.bufferPool.writePage id page } ids
        (Function.update slots id s) := by
  rcases (hl.pages id hid).step call with ⟨hnone, -⟩ | ⟨page', s, a', hs', hslots, hrep⟩
  · rw [hnone] at hs
    cases hs
  · rw [hs'] at hs
    cases hs
    exact ⟨s, hslots, hl.write hid hrep (fun b hb => (hl.pages id hid).step_header hs' hb)
      (SlotMap.holds_step hslots (hl.holds id hid) hcall)⟩

end Laid

/-! ## Inserting a tuple -/

/-- **The loop ends**: in the first page with room, or behind the last
page. -/
theorem insertLoop_spec {insert : TablePage → TablePage × Option RowId} {rest : List PageId}
    (hl : Linked p prev cur rest) (huse : ∀ id ∈ rest, id ∈ p.allocated ∧ id ≠ invalidPageId)
    {n : ℕ} (hn : rest.length ≤ n) (page : Option PageId) :
    (∃ id ∈ rest, ∃ q rid, insert (p.data id) = (q, some rid) ∧
      insertLoop p insert n cur page = some (p.writePage id q, some rid, some id)) ∨
    ((∀ id ∈ rest, ∃ q, insert (p.data id) = (q, none)) ∧
      insertLoop p insert n cur page = some (p, none, rest.getLast?.or page)) := by
  induction rest generalizing prev cur n page with
  | nil =>
    have hcur : cur = invalidPageId := hl
    refine .inr ⟨fun _ hmem => absurd hmem List.not_mem_nil, ?_⟩
    cases n with
    | zero => exact if_pos hcur
    | succ n => exact if_pos hcur
  | cons id rest ih =>
    obtain ⟨rfl, -, hrest⟩ := hl
    obtain ⟨hin, hvalid⟩ := huse cur List.mem_cons_self
    obtain ⟨n, rfl⟩ : ∃ m, n = m + 1 := ⟨n - 1, by rw [List.length_cons] at hn; omega⟩
    have hfetch : p.fetchPage cur = some (p.data cur) := PageStore.fetchPage_eq_some.mpr ⟨hin, rfl⟩
    unfold insertLoop
    rw [if_neg hvalid, hfetch]
    rcases hins : insert (p.data cur) with ⟨q, _ | rid⟩
    · simp only [hins]
      rcases ih hrest (fun q hq => huse q (List.mem_cons_of_mem _ hq))
        (Nat.le_of_succ_le_succ hn) (some cur) with ⟨q, hq, q', rid, hq', hloop⟩ | ⟨hnone, hloop⟩
      · exact .inl ⟨q, List.mem_cons_of_mem _ hq, q', rid, hq', hloop⟩
      · refine .inr ⟨List.forall_mem_cons.mpr ⟨⟨q, hins⟩, hnone⟩, ?_⟩
        rw [hloop, List.getLast?_cons]
        cases rest.getLast? <;> rfl
    · simp only [hins]
      exact .inl ⟨cur, List.mem_cons_self, q, rid, hins, rfl⟩

/-- A page id that is one is read back from a header. -/
theorem toInt_ofInt {id : PageId} (hid : 0 ≤ id ∧ id < 2 ^ 31) : (Int32.ofInt id).toInt = id :=
  Int32.toInt_ofInt_of_le (le_trans (by decide) hid.1) hid.2

/-- **A new page at the end of the chain**, linked both ways. -/
theorem Laid.append (hl : Laid P h ids slots) {last new : PageId} (hlast : ids.getLast? = some last)
    (hnew : new ∉ ids ∧ 0 ≤ new ∧ new < 2 ^ 31) {s : List (Slot Tuple)}
    (hrep : Represents new page s) (hholds : ∀ x ∈ s, x.Holds P)
    (hlinks : getPrevPageId page = last ∧ getNextPageId page = invalidPageId)
    (halloc : p.allocated = new :: h.bufferPool.allocated)
    (hdata : ∀ q ≠ new, p.data q = h.bufferPool.data q) :
    Laid P { h with
        bufferPool := ((p.writePage last (TablePage.setNextPageId (p.data last)
          (Int32.ofInt new))).writePage new page) } (ids ++ [new])
            (Function.update slots new s) := by
  obtain ⟨pre, rfl⟩ := List.getLast?_eq_some_iff.mp hlast
  have hlastmem : last ∈ pre ++ [last] := List.mem_append_right pre List.mem_cons_self
  have hne : last ≠ new := fun heq => hnew.1 (heq ▸ hlastmem)
  have hother : ∀ q, q ≠ new → q ≠ last →
      ((p.writePage last (TablePage.setNextPageId (p.data last) (Int32.ofInt new))).writePage new
        page).data q = h.bufferPool.data q := fun q hq hql => by
    rw [PageStore.data_writePage_of_ne hq, PageStore.data_writePage_of_ne hql, hdata q hq]
  have hdlast : ((p.writePage last (TablePage.setNextPageId (p.data last)
      (Int32.ofInt new))).writePage new page).data last =
        TablePage.setNextPageId (h.bufferPool.data last) (Int32.ofInt new) := by
    rw [PageStore.data_writePage_of_ne hne, PageStore.data_writePage_self, hdata last hne]
  have hpre : ∀ q ∈ pre, q ≠ new ∧ q ≠ last := fun q hq =>
    ⟨fun heq => hnew.1 (heq ▸ List.mem_append_left _ hq), fun heq =>
      (List.nodup_append.mp hl.nodup).2.2 q hq last List.mem_cons_self heq⟩
  refine ⟨hl.linked.append hl.nodup (fun q hq b _ => ?_) ⟨?_, ?_⟩ ?_, ?_, by simp, fun q => ?_,
    fun q hq => ?_, fun q hq => ?_, fun q hq => ?_⟩
  · rw [hother q (hpre q hq).1 (hpre q hq).2]
  · rw [hdlast, getPrevPageId_setNextPageId]
  · rw [hdlast, getNextPageId_setNextPageId, toInt_ofInt hnew.2]
  · rw [PageStore.data_writePage_self]
    exact hlinks
  · refine List.nodup_append.mpr
      ⟨hl.nodup, List.pairwise_singleton _ new, fun q hq q' hq' heq => ?_⟩
    rw [List.mem_singleton.mp hq'] at heq
    exact hnew.1 (heq ▸ hq)
  · show q ∈ p.allocated ↔ _
    rw [halloc, List.mem_cons, hl.inUse, List.mem_append (t := [new]), List.mem_singleton]
    exact or_comm
  · rcases List.mem_append.mp hq with hq | hq
    · exact hl.range q hq
    · rw [List.mem_singleton.mp hq]
      exact hnew.2
  · by_cases hqnew : q = new
    · rw [hqnew, PageStore.data_writePage_self, Function.update_self]
      exact hrep
    · have hqmem : q ∈ pre ++ [last] := (List.mem_append.mp hq).resolve_right
        (fun h => hqnew (List.mem_singleton.mp h))
      rw [Function.update_of_ne hqnew]
      by_cases hqlast : q = last
      · rw [hqlast, hdlast]
        exact (hl.pages last hlastmem).setNextPageId _
      · rw [hother q hqnew hqlast]
        exact hl.pages q hqmem
  · by_cases hqnew : q = new
    · rw [hqnew, Function.update_self]
      exact hholds
    · rw [Function.update_of_ne hqnew]
      exact hl.holds q ((List.mem_append.mp hq).resolve_right
        (fun h => hqnew (List.mem_singleton.mp h)))

/-- The slot map of a page, where a tuple is inserted. -/
theorem Represents.insertTuple_eq' {s : List (Slot Tuple)} (hrep : Represents id page s)
    {q : TablePage} {rid : Option RowId} (hins : TablePage.insertTuple page row = (q, rid)) :
    ∃ s' i, SlotMap.insertTuple s row = (s', i) ∧ rid = i.map (fun i => ⟨id, i⟩) ∧
      Represents id q s' := by
  obtain ⟨s', hs', hrep'⟩ := hrep.insertTuple row
  rw [hins] at hs' hrep'
  simp only [SlotMap.step, Option.some.injEq, Prod.mk.injEq, TableAnswer.inserted.injEq] at hs'
  exact ⟨s', _, Prod.ext hs'.1 rfl, hs'.2.symm, hrep'⟩

/-- `InsertTuple`, where a page of the chain has room. -/
theorem insertTuple_of_found {fields : List Field} {new : PageId} {rid : RowId}
    {page : Option PageId} (hrow : Tuple.ofFields fields = some row)
    (hloop : insertLoop h.bufferPool (TablePage.insertTuple · row) h.bufferPool.allocated.length
      h.firstPageId none = some (p, some rid, page)) :
    h.insertTuple fields new = some ({ h with bufferPool := p }, some rid) := by
  unfold PagedHeap.insertTuple
  rw [hrow]
  simp only [Option.bind_eq_bind, Option.bind_some, hloop]

/-- `InsertTuple`, where no page of the chain has room. -/
theorem insertTuple_of_full {fields : List Field} {last new : PageId} {q q' q'' : TablePage}
    {rid : Option RowId} (hrow : Tuple.ofFields fields = some row)
    (hloop : insertLoop h.bufferPool (TablePage.insertTuple · row) h.bufferPool.allocated.length
      h.firstPageId none = some (h.bufferPool, none, some last))
    (hnew : h.bufferPool.newPage new = some p) (hlast : p.fetchPage last = some q)
    (hfetch : (p.writePage last (TablePage.setNextPageId q (Int32.ofInt new))).fetchPage new =
      some q')
    (hins : TablePage.insertTuple (TablePage.init q' (Int32.ofInt new) (Int32.ofInt last)) row =
      (q'', rid)) :
    h.insertTuple fields new = some ({ h with
      bufferPool := ((p.writePage last (TablePage.setNextPageId q (Int32.ofInt new))).writePage new
        q'') }, rid) := by
  unfold PagedHeap.insertTuple
  rw [hrow]
  simp only [Option.bind_eq_bind, Option.bind_some, hloop, hnew, hlast, hfetch, hins]

/-- `InsertTuple`, where a new page is needed and `NewPage` does not give the
id. -/
theorem insertTuple_of_newPage_eq_none {fields : List Field} {last new : PageId}
    (hrow : Tuple.ofFields fields = some row)
    (hloop : insertLoop h.bufferPool (TablePage.insertTuple · row) h.bufferPool.allocated.length
      h.firstPageId none = some (h.bufferPool, none, some last))
    (hnew : h.bufferPool.newPage new = none) : h.insertTuple fields new = none := by
  unfold PagedHeap.insertTuple
  rw [hrow]
  simp only [Option.bind_eq_bind, Option.bind_some, hloop, hnew, Option.bind_none]

/-- The id may be given to a new page. -/
def Fresh (h : PagedHeap) (new : PageId) : Prop :=
  new ∉ h.bufferPool.allocated ∧ 0 ≤ new ∧ new < 2 ^ 31

/-- **`InsertTuple` always returns**: the row is in the first page of the chain
with room for it, or in a new page at its end, if it fits there. -/
theorem Laid.insertTuple (hl : Laid P h ids slots) {fields : List Field}
    (hrow : Tuple.ofFields fields = some row) (hP : P row) (new : PageId) :
    (¬ h.Fresh new ∧ h.insertTuple fields new = none) ∨
    ∃ h' r, h.insertTuple fields new = some (h', r) ∧ h'.schema = h.schema ∧
      ((∃ id ∈ ids, ∃ s i, SlotMap.insertTuple (slots id) row = (s, some i) ∧
          r = some ⟨id, i⟩ ∧ Laid P h' ids (Function.update slots id s)) ∨
        new ∉ ids ∧ ∃ s i, SlotMap.insertTuple [] row = (s, i) ∧ r = i.map (fun i => ⟨new, i⟩) ∧
          Laid P h' (ids ++ [new]) (Function.update slots new s)) := by
  rcases @insertLoop_spec _ _ _ (TablePage.insertTuple · row) _ hl.linked
    (fun q hq => ⟨(hl.inUse q).mpr hq, hl.ne_invalid hq⟩) _ hl.length_le none with
    ⟨id, hid, q, rid, hins, hloop⟩ | ⟨-, hloop⟩
  · obtain ⟨s, i, hs, hrid, hrep⟩ := Represents.insertTuple_eq' (hl.pages id hid) hins
    have hheader : ∀ b < 16, q b = h.bufferPool.data id b := fun b hb => by
      rw [← (hl.pages id hid).insertTuple_header hb,
        show TablePage.insertTuple (h.bufferPool.data id) row = (q, some rid) from hins]
    cases i with
    | none => cases hrid
    | some i =>
      exact .inr ⟨_, some rid, insertTuple_of_found hrow hloop, rfl,
        .inl ⟨id, hid, s, i, hs, hrid, hl.write hid hrep hheader
          (SlotMap.holds_insertTuple hs (hl.holds id hid) hP)⟩⟩
  · obtain ⟨last, hlast⟩ : ∃ last, ids.getLast? = some last :=
      ⟨_, List.getLast?_eq_some_getLast hl.ne_nil⟩
    have hlastmem : last ∈ ids := List.mem_of_getLast? hlast
    rw [hlast] at hloop
    by_cases hfresh : h.Fresh new
    · have hnew : new ∉ ids := fun hin => hfresh.1 ((hl.inUse new).mpr hin)
      obtain ⟨p₁, hp₁⟩ : ∃ p₁, h.bufferPool.newPage new = some p₁ := ⟨_, if_pos hfresh⟩
      obtain ⟨-, halloc, hdata⟩ := PageStore.newPage_eq_some hp₁
      have hfetch : p₁.fetchPage last = some (p₁.data last) := PageStore.fetchPage_eq_some.mpr
        ⟨by rw [halloc]; exact List.mem_cons_of_mem _ ((hl.inUse last).mpr hlastmem), rfl⟩
      obtain ⟨m, hm⟩ : ∃ m, (p₁.writePage last (TablePage.setNextPageId (p₁.data last)
          (Int32.ofInt new))).fetchPage new = some m :=
        ⟨_, PageStore.fetchPage_eq_some.mpr
          ⟨by rw [PageStore.allocated_writePage, halloc]; exact List.mem_cons_self, rfl⟩⟩
      -- The new page is empty and linked back, and stays so while the tuple is put into it.
      have hinit : Represents new (TablePage.init m (Int32.ofInt new) (Int32.ofInt last)) [] := by
        have hrep := represents_init m (Int32.ofInt new) (Int32.ofInt last)
        rwa [toInt_ofInt hfresh.2] at hrep
      have hlinks := links_init m (Int32.ofInt new) (Int32.ofInt last)
      rw [toInt_ofInt (hl.range last hlastmem)] at hlinks
      obtain ⟨q, rid, hins⟩ : ∃ q rid, TablePage.insertTuple
          (TablePage.init m (Int32.ofInt new) (Int32.ofInt last)) row = (q, rid) :=
        ⟨_, _, Prod.mk.eta.symm⟩
      obtain ⟨s, i, hs, hrid, hrep⟩ := Represents.insertTuple_eq' hinit hins
      have hheader : ∀ b < 16, q b = TablePage.init m (Int32.ofInt new) (Int32.ofInt last) b :=
        fun b hb => by rw [← hinit.insertTuple_header hb, hins]
      have hsame := links_congr hheader
      exact .inr ⟨_, rid, insertTuple_of_full hrow hloop hp₁ hfetch hm hins, rfl, .inr ⟨hnew, s, i,
        hs, hrid, hl.append hlast ⟨hnew, hfresh.2⟩ hrep
          (SlotMap.holds_insertTuple hs (fun _ hmem => absurd hmem List.not_mem_nil) hP)
          ⟨hsame.1.trans hlinks.1, hsame.2.trans hlinks.2⟩ halloc hdata⟩⟩
    · exact .inl ⟨hfresh, insertTuple_of_newPage_eq_none hrow hloop (if_neg hfresh)⟩

/-! ## The calls -/

/-- The row that a call brings satisfies a condition, as bytes. -/
def Call.Brings (P : Tuple → Prop) : Call → Prop
  | .insertTuple fields _ => ∀ row, Tuple.ofFields fields = some row → P row
  | .updateTuple fields _ _ => ∀ row, Tuple.ofFields fields = some row → P row
  | _ => True

/-- Every row is one. -/
theorem Call.brings_true (c : Call) : c.Brings (fun _ => True) := by
  cases c with
  | insertTuple _ _ | updateTuple _ _ _ => exact fun _ _ => trivial
  | markDelete _ | applyDelete _ | rollbackDelete _ | getTuple _ => trivial

section Calls

variable {rid : RowId} {fields : List Field} {new : PageId} {r : Option RowId}

theorem Laid.of_insertTuple (hl : Laid P h ids slots)
    (hP : ∀ row, Tuple.ofFields fields = some row → P row)
    (hins : h.insertTuple fields new = some (h', r)) :
    h'.schema = h.schema ∧ ∃ ids' slots', Laid P h' ids' slots' := by
  obtain ⟨row, hrow⟩ : ∃ row, Tuple.ofFields fields = some row := by
    refine Option.ne_none_iff_exists'.mp (fun hnone => ?_)
    rw [PagedHeap.insertTuple, hnone] at hins
    cases hins
  rcases hl.insertTuple hrow (hP row hrow) new with ⟨-, hnone⟩ | ⟨h'', r', hsome, hschema, hcases⟩
  · rw [hnone] at hins
    cases hins
  · rw [hsome] at hins
    cases hins
    rcases hcases with ⟨id, -, s, -, -, -, hlaid⟩ | ⟨-, s, -, -, -, hlaid⟩
    · exact ⟨hschema, _, _, hlaid⟩
    · exact ⟨hschema, _, _, hlaid⟩

theorem Laid.of_markDelete (hl : Laid P h ids slots) (hs : h.markDelete rid = some h') :
    h'.schema = h.schema ∧ ∃ slots', Laid P h' ids slots' := by
  obtain ⟨page, hfetch, rfl⟩ := Option.map_eq_some_iff.mp hs
  obtain ⟨hid, rfl⟩ := hl.fetchPage_eq_some.mp hfetch
  have hstep : TablePage.step (h.bufferPool.data rid.pageId) (.markDelete rid) =
      some ((TablePage.markDelete (h.bufferPool.data rid.pageId) rid).1,
        .marked (TablePage.markDelete (h.bufferPool.data rid.pageId) rid).2) := rfl
  obtain ⟨s, -, hlaid⟩ := hl.step hid hstep trivial
  exact ⟨rfl, _, hlaid⟩

theorem Laid.of_applyDelete (hl : Laid P h ids slots) (hs : h.applyDelete rid = some h') :
    h'.schema = h.schema ∧ ∃ slots', Laid P h' ids slots' := by
  obtain ⟨page, hfetch, hs⟩ := Option.bind_eq_some_iff.mp hs
  obtain ⟨page', hpage', hs⟩ := Option.bind_eq_some_iff.mp hs
  cases hs
  obtain ⟨hid, rfl⟩ := hl.fetchPage_eq_some.mp hfetch
  have hstep : TablePage.step (h.bufferPool.data rid.pageId) (.applyDelete rid) =
      some (page', .done) := by
    rw [TablePage.step, hpage']
    rfl
  obtain ⟨s, -, hlaid⟩ := hl.step hid hstep trivial
  exact ⟨rfl, _, hlaid⟩

theorem Laid.of_rollbackDelete (hl : Laid P h ids slots) (hs : h.rollbackDelete rid = some h') :
    h'.schema = h.schema ∧ ∃ slots', Laid P h' ids slots' := by
  obtain ⟨page, hfetch, hs⟩ := Option.bind_eq_some_iff.mp hs
  obtain ⟨page', hpage', hs⟩ := Option.bind_eq_some_iff.mp hs
  cases hs
  obtain ⟨hid, rfl⟩ := hl.fetchPage_eq_some.mp hfetch
  have hstep : TablePage.step (h.bufferPool.data rid.pageId) (.rollbackDelete rid) =
      some (page', .done) := by
    rw [TablePage.step, hpage']
    rfl
  obtain ⟨s, -, hlaid⟩ := hl.step hid hstep trivial
  exact ⟨rfl, _, hlaid⟩

theorem Laid.of_updateTuple (hl : Laid P h ids slots) {b : Bool}
    (hP : ∀ row, Tuple.ofFields fields = some row → P row)
    (hs : h.updateTuple fields rid new = some (h', b, r)) :
    h'.schema = h.schema ∧ ∃ ids' slots', Laid P h' ids' slots' := by
  simp only [PagedHeap.updateTuple, Option.bind_eq_bind, Option.bind_eq_some_iff] at hs
  obtain ⟨page, hfetch, -, -, row, hrow, ⟨page', res, old⟩, hup, hs⟩ := hs
  obtain ⟨hid, rfl⟩ := hl.fetchPage_eq_some.mp hfetch
  by_cases hzero : res = 0
  · rw [if_pos hzero] at hs
    simp only [Option.bind_eq_some_iff] at hs
    obtain ⟨h₁, hmark, h₂, happly, ⟨h₃, r₃⟩, hins, hs⟩ := hs
    cases hs
    obtain ⟨hs₁, slots₁, hl₁⟩ := hl.of_markDelete hmark
    obtain ⟨hs₂, slots₂, hl₂⟩ := hl₁.of_applyDelete happly
    obtain ⟨hs₃, hl₃⟩ := hl₂.of_insertTuple hP hins
    exact ⟨hs₃.trans (hs₂.trans hs₁), hl₃⟩
  rw [if_neg hzero] at hs
  by_cases hone : res = 1
  · rw [if_pos hone] at hs
    cases hs
    have hstep : TablePage.step (h.bufferPool.data rid.pageId) (.updateTuple row rid) =
        some (page', .updated res old) := by
      rw [TablePage.step, hup]
      rfl
    obtain ⟨s, -, hlaid⟩ := hl.step hid hstep (hP row hrow)
    exact ⟨rfl, _, _, hlaid⟩
  · rw [if_neg hone] at hs
    cases hs
    exact ⟨rfl, _, _, hl⟩

end Calls

/-- **Every call keeps the chain.** -/
theorem Laid.of_step (hl : Laid P h ids slots) {c : Call} (hc : c.Brings P) {o : Answer}
    (hs : h.step c = some (h', o)) :
    h'.schema = h.schema ∧ ∃ ids' slots', Laid P h' ids' slots' := by
  cases c with
  | insertTuple row new =>
    obtain ⟨⟨g, r⟩, hg, hr⟩ := Option.map_eq_some_iff.mp hs
    cases hr
    exact hl.of_insertTuple hc hg
  | markDelete rid =>
    obtain ⟨g, hg, hr⟩ := Option.map_eq_some_iff.mp hs
    cases hr
    exact ⟨(hl.of_markDelete hg).1, ids, (hl.of_markDelete hg).2⟩
  | applyDelete rid =>
    obtain ⟨g, hg, hr⟩ := Option.map_eq_some_iff.mp hs
    cases hr
    exact ⟨(hl.of_applyDelete hg).1, ids, (hl.of_applyDelete hg).2⟩
  | rollbackDelete rid =>
    obtain ⟨g, hg, hr⟩ := Option.map_eq_some_iff.mp hs
    cases hr
    exact ⟨(hl.of_rollbackDelete hg).1, ids, (hl.of_rollbackDelete hg).2⟩
  | updateTuple row rid new =>
    obtain ⟨⟨g, b, r⟩, hg, hr⟩ := Option.map_eq_some_iff.mp hs
    cases hr
    exact hl.of_updateTuple hc hg
  | getTuple rid =>
    obtain ⟨g, -, hr⟩ := Option.map_eq_some_iff.mp hs
    cases hr
    exact ⟨rfl, ids, slots, hl⟩

/-- A new heap has one page, which is empty. -/
theorem laid_create {schema : Schema} (hs : create schema id = some h) :
    h.schema = schema ∧ Laid P h [id] (fun _ => []) := by
  simp only [create, Option.bind_eq_bind, Option.bind_eq_some_iff] at hs
  obtain ⟨p, hp, page, hfetch, hs⟩ := hs
  cases hs
  obtain ⟨hid, halloc, -⟩ := PageStore.newPage_eq_some hp
  have hlinks := links_init page (Int32.ofInt id) (-1)
  have hrep := represents_init page (Int32.ofInt id) (-1)
  rw [toInt_ofInt hid.2] at hrep
  refine ⟨rfl, ⟨⟨rfl, ?_, ?_⟩, List.pairwise_singleton _ id, List.cons_ne_nil id [], fun q => ?_,
    fun q hq => ?_, fun q hq => ?_, fun _ _ _ hmem => absurd hmem List.not_mem_nil⟩⟩
  · rw [PageStore.data_writePage_self, hlinks.1]
    rfl
  · rw [PageStore.data_writePage_self]
    exact hlinks.2
  · show q ∈ p.allocated ↔ _
    rw [halloc]
  · rw [List.mem_singleton.mp hq]
    exact hid.2
  · rw [List.mem_singleton.mp hq, PageStore.data_writePage_self]
    exact hrep

/-- **In every run** the pages form a chain, and their tuples satisfy what the
rows of all calls do. -/
theorem exists_laid_of_run {schema : Schema} {h₀ : PagedHeap} (hcreate : create schema id = some h₀)
    {calls : List Call} {answers : List Answer} (hcalls : ∀ c ∈ calls, c.Brings P)
    (hrun : Machine.run step h₀ calls = some (h, answers)) :
    h.schema = schema ∧ ∃ ids slots, Laid P h ids slots := by
  obtain ⟨hschema, hlaid⟩ := laid_create hcreate
  have hreach : Machine.Reaches step (fun _ c => c.Brings P) h₀ h :=
    Machine.Reaches.init.run (Machine.meets_of_forall_mem hcalls h₀) hrun
  exact hreach.invariant (I := fun h => h.schema = schema ∧ ∃ ids slots, Laid P h ids slots)
    ⟨hschema, _, _, hlaid⟩ (fun s c s' o hI hc hs => by
      obtain ⟨hsch, ids, slots, hl⟩ := hI
      exact ⟨(hl.of_step hc hs).1.trans hsch, (hl.of_step hc hs).2⟩)

end PagedHeap

end MiniSql
