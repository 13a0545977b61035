import MiniSql.FailedStatements
import MiniSql.PagedTable
import MiniSql.RowLimits
import MiniSql.RowsInPlace
import MiniSql.UpdateRows

/-!
# An update made twice

`ExecuteUpdate` again, right after it has succeeded, is to succeed and to change nothing. On
rows that keep their size every round rewrites a row in its place, and a scan meets the same
rows each time: the statement is a loop over pairs of an assignment and a row id
(`TableInfo.KeepsSizes.updateWhere_eq_true`), and what it leaves is known beforehand
(`TableInfo.afterRounds`).

A round looks for the new key in each index whose key starts with the assigned column. The
row that has the assigned value already is in such an index itself, so the second time the
statement fails where it selects a row again (`TableInfo.not_repeats`). The other indexes are
not looked into. Where no row gets the key of another one there, `TableInfo.repeats_iff` says
of the table before the statement whether it can be made twice.
-/

namespace MiniSql

/-! ## Rows that stay in their place -/

namespace TableHeap

variable {h h' : TableHeap} {rid : RowId} {row old : List Field}

/-- Where the pages have live rows. -/
def shape (h : TableHeap) : List (PageId × List Bool) :=
  h.pages.map (fun p => (p.pageId, p.slots.map isLive))

/-- **A row that fits** is written over the old one. -/
theorem updateTuple_inPlace (ids : PageIds) (hlive : h.live rid = some old)
    (hrid : rid ≠ invalidRowId) (hfit : h.Fits row rid) (hpos : Sized.size row ≠ 0) :
    ∃ p, h.fetchPage rid.pageId = some p ∧ p.slots[rid.slotNum]? = some (.live old) ∧
      h.updateTuple ids row rid =
        some (h.setSlots rid.pageId (p.slots.set rid.slotNum (.live row)), true) := by
  obtain ⟨p, hp, hs⟩ := exists_fetchPage hlive
  refine ⟨p, hp, hs, ?_⟩
  have hroom : ¬ SlotMap.room p.slots + Sized.size old < Sized.size row :=
    not_lt.mpr (hfit p old hp hs)
  have hup : SlotMap.updateTuple p.slots row rid.slotNum =
      (p.slots.set rid.slotNum (.live row), 1, some old) := by
    unfold SlotMap.updateTuple
    rw [hs]
    exact if_neg hroom
  rw [updateTuple, hp]
  dsimp only
  rw [if_neg (not_or.mpr ⟨hrid, hpos⟩), hup]
  rfl

/-- Rows that are replaced in their place keep their places. -/
theorem shape_mapRows {f : RowId → List Field → List Field} : (h.mapRows f).shape = h.shape := by
  rw [shape, shape, mapRows, List.map_map]
  refine List.map_congr_left (fun p _ => ?_)
  rw [Function.comp_apply, map_isLive_mapSlots]

/-- The first row of a page depends on where there are rows only. -/
theorem firstTuple_congr {p q : HeapPage} (hid : p.pageId = q.pageId)
    (hslots : p.slots.map isLive = q.slots.map isLive) (start : ℕ) :
    firstTuple p start = firstTuple q start := by
  have hfind : ∀ l : List (Slot (List Field)),
      (l.drop start).findIdx? isLive = ((l.map isLive).drop start).findIdx? id := by
    intro l
    rw [← List.map_drop, List.findIdx?_map]
    rfl
  rw [firstTuple, firstTuple, hfind, hfind, hslots, hid]

theorem begin_congr (hshape : h'.shape = h.shape) : h'.begin = h.begin := by
  unfold begin
  unfold shape at hshape
  cases hpages : h.pages with
  | nil =>
    rw [hpages] at hshape
    rw [List.map_eq_nil_iff.mp hshape]
  | cons p ps =>
    cases hpages' : h'.pages with
    | nil =>
      rw [hpages, hpages'] at hshape
      cases hshape
    | cons p' ps' =>
      rw [hpages, hpages', List.map_cons, List.map_cons] at hshape
      obtain ⟨hid, hslots⟩ := Prod.mk.inj (List.cons.inj hshape).1
      exact firstTuple_congr hid hslots 0

theorem next_congr (hshape : h'.shape = h.shape) (rid : RowId) : h'.next rid = h.next rid := by
  unfold next
  unfold shape at hshape
  have hfind : ∀ ps ps' : List HeapPage,
      ps'.map (fun p => (p.pageId, p.slots.map isLive)) =
        ps.map (fun p => (p.pageId, p.slots.map isLive)) →
      ps'.findSome? (fun p => firstTuple p 0) = ps.findSome? (fun p => firstTuple p 0) := by
    intro ps
    induction ps with
    | nil =>
      intro ps' hps
      rw [List.map_eq_nil_iff.mp hps]
    | cons p ps ih =>
      intro ps' hps
      cases ps' with
      | nil => cases hps
      | cons p' ps' =>
        rw [List.map_cons, List.map_cons] at hps
        obtain ⟨hhead, htail⟩ := List.cons.inj hps
        obtain ⟨hid, hslots⟩ := Prod.mk.inj hhead
        rw [List.findSome?_cons, List.findSome?_cons, firstTuple_congr hid hslots, ih ps' htail]
  generalize h.pages = ps, h'.pages = ps' at hshape
  induction ps generalizing ps' with
  | nil => rw [List.map_eq_nil_iff.mp hshape]
  | cons p ps ih =>
    cases ps' with
    | nil => cases hshape
    | cons p' ps' =>
      rw [List.map_cons, List.map_cons] at hshape
      obtain ⟨hhead, htail⟩ := List.cons.inj hshape
      obtain ⟨hid, hslots⟩ := Prod.mk.inj hhead
      rw [List.dropWhile_cons, List.dropWhile_cons, hid]
      by_cases hpage : decide (p.pageId ≠ rid.pageId) = true
      · rw [if_pos hpage, if_pos hpage]
        exact ih ps' htail
      · rw [if_neg hpage, if_neg hpage]
        dsimp only
        rw [firstTuple_congr hid hslots, hfind ps ps' htail]

end TableHeap

/-! ## Assignments -/

section Assignments

variable {s : Schema} {a : Assignment} {as : List Assignment} {row : List Field} {c : ℕ} {f : Field}

/-- The row that an assignment makes. -/
theorem apply_of_sets (h : TableInfo.Sets s a c f) : a.apply s row = row.set c f := by
  obtain ⟨hc, col, hcol, hf⟩ := h
  have htarget : a.target s = some (c, f) := by
    rw [Assignment.target, hc, Option.bind_some, hcol, Option.bind_some, hf]
    rfl
  rw [Assignment.apply, htarget]

theorem applyAll_replicate (n : ℕ) :
    applyAll s (List.replicate n a) row = if n = 0 then row else a.apply s row := by
  induction n generalizing row with
  | zero => rfl
  | succ n ih =>
    rw [List.replicate_succ, applyAll, ih, if_neg (Nat.succ_ne_zero n), apply_apply, ite_self]

/-- The assignments that rounds make to the row with the given id. -/
def assigned (pairs : List (Assignment × RowId)) (q : RowId) : List Assignment :=
  (pairs.filter (fun r => r.2 = q)).map Prod.fst

theorem assigned_cons {pairs : List (Assignment × RowId)} {q rid : RowId} :
    assigned ((a, rid) :: pairs) q =
      if q = rid then a :: assigned pairs q else assigned pairs q := by
  rw [assigned, List.filter_cons]
  dsimp only
  by_cases hq : q = rid
  · rw [if_pos (decide_eq_true hq.symm), if_pos hq, List.map_cons]
    rfl
  · rw [if_neg (fun hc => hq (of_decide_eq_true hc).symm), if_neg hq]
    rfl

theorem assigned_append (pairs pairs' : List (Assignment × RowId)) (q : RowId) :
    assigned (pairs ++ pairs') q = assigned pairs q ++ assigned pairs' q := by
  rw [assigned, List.filter_append, List.map_append]
  rfl

/-- The rounds of a statement: each assignment, for each row. -/
def roundsOf (as : List Assignment) (rids : List RowId) : List (Assignment × RowId) :=
  as.flatMap (fun a => rids.map (fun rid => (a, rid)))

theorem roundsOf_append (as bs : List Assignment) (R : List RowId) :
    roundsOf (as ++ bs) R = roundsOf as R ++ roundsOf bs R := List.flatMap_append

theorem roundsOf_singleton (a : Assignment) (R : List RowId) :
    roundsOf [a] R = R.map (fun rid => (a, rid)) := List.flatMap_singleton ..

theorem mem_roundsOf {rids : List RowId} {r : Assignment × RowId} :
    r ∈ roundsOf as rids ↔ r.1 ∈ as ∧ r.2 ∈ rids := by
  rw [roundsOf, List.mem_flatMap]
  constructor
  · rintro ⟨a, ha, hr⟩
    obtain ⟨rid, hrid, rfl⟩ := List.mem_map.mp hr
    exact ⟨ha, hrid⟩
  · rintro ⟨ha, hr⟩
    exact ⟨r.1, ha, List.mem_map.mpr ⟨r.2, hr, rfl⟩⟩

theorem assigned_map (rids : List RowId) (q : RowId) :
    assigned (rids.map (fun rid => (a, rid))) q = List.replicate (rids.count q) a := by
  induction rids with
  | nil => rfl
  | cons rid rids ih =>
    rw [List.map_cons, List.count_cons]
    unfold assigned at ih ⊢
    rw [List.filter_cons]
    dsimp only
    by_cases hrid : rid = q
    · rw [if_pos (decide_eq_true hrid), List.map_cons, ih, if_pos (beq_iff_eq.mpr hrid)]
      rfl
    · rw [if_neg (fun hc => hrid (of_decide_eq_true hc)), ih,
        if_neg (fun hc => hrid (beq_iff_eq.mp hc))]
      rfl

/-- **What the rounds of a statement make of a row**: all the assignments, if it is one of
the rows. -/
theorem applyAll_assigned (rids : List RowId) (q : RowId) :
    applyAll s (assigned (roundsOf as rids) q) row =
      if q ∈ rids then applyAll s as row else row := by
  induction as generalizing row with
  | nil => exact (ite_self _).symm
  | cons a as ih =>
    have hsplit : assigned (roundsOf (a :: as) rids) q =
        List.replicate (rids.count q) a ++ assigned (roundsOf as rids) q := by
      rw [← assigned_map, roundsOf, List.flatMap_cons, assigned_append]
      rfl
    rw [hsplit, applyAll_append, ih, applyAll_replicate]
    by_cases hq : q ∈ rids
    · rw [if_pos hq, if_pos hq, if_neg (List.count_pos_iff.mpr hq).ne']
      rfl
    · rw [if_neg hq, if_neg hq, if_pos (List.count_eq_zero.mpr hq)]

/-- A field of the same size. -/
theorem map_size_set {g : Field} (hg : row[c]? = some g) (hsize : f.size = g.size) :
    (row.set c f).map Field.size = row.map Field.size := by
  have hget : (row.map Field.size)[c]? = some g.size := by
    rw [List.getElem?_map, hg]
    rfl
  obtain ⟨hlt, hval⟩ := List.getElem?_eq_some_iff.mp hget
  rw [List.map_set, hsize, ← hval, List.set_getElem_self]

end Assignments

/-! ## One round -/

namespace TableInfo

open IndexInfo

variable {t t' : TableInfo} {a : Assignment} {as : List Assignment} {S : RowId → Prop}
  {rid : RowId} {old new : List Field}

/-- **Rows that keep their size**: no row has a `NULL`, and what an assignment puts into a
selected row is as large as what is there. -/
structure KeepsSizes (as : List Assignment) (S : RowId → Prop) (t : TableInfo) : Prop where
  wellFormed : t.heap.WellFormed t.ids
  rowOf : ∀ q row, t.heap.live q = some row → PagedHeap.RowOf t.schema row
  stored : ∀ q row, t.heap.live q = some row → Sized.size row ≠ 0
  sizes : ∀ a ∈ as, ∀ c f, Sets t.schema a c f → ∀ q, S q → ∀ row g, t.heap.live q = some row →
    row[c]? = some g → f.size = g.size

/-- The heap after some rounds, none of which has moved a row. -/
def heapAfter (t : TableInfo) (rs : List (Assignment × RowId)) : TableHeap :=
  t.heap.mapRows (fun q => applyAll t.schema (assigned rs q))

theorem heapAfter_nil (t : TableInfo) : t.heapAfter [] = t.heap := TableHeap.mapRows_id t.heap

/-- One round. -/
theorem heapAfter_singleton : t.heapAfter [(a, rid)] =
    t.heap.mapRows (fun q row => if q = rid then a.apply t.schema row else row) := by
  refine congrArg (fun f => t.heap.mapRows f) (funext (fun q => funext (fun row => ?_)))
  rw [assigned_cons]
  by_cases hq : q = rid
  · rw [if_pos hq, if_pos hq]
    rfl
  · rw [if_neg hq, if_neg hq]
    rfl

/-- Some rounds after the others. -/
theorem heapAfter_append {rs rs' : List (Assignment × RowId)} (hschema : t'.schema = t.schema)
    (hheap : t'.heap = t.heapAfter rs) : t'.heapAfter rs' = t.heapAfter (rs ++ rs') := by
  rw [heapAfter, hheap, heapAfter, TableHeap.mapRows_mapRows, hschema]
  refine congrArg (fun f => t.heap.mapRows f) (funext (fun q => funext (fun row => ?_)))
  rw [assigned_append, applyAll_append]

/-- One round before the others. -/
theorem heapAfter_cons {rs : List (Assignment × RowId)} (hschema : t'.schema = t.schema)
    (hheap : t'.heap = t.heapAfter [(a, rid)]) : t'.heapAfter rs = t.heapAfter ((a, rid) :: rs) :=
  heapAfter_append hschema hheap

/-- The names and the columns of the indexes. -/
def keyColumns (t : TableInfo) : List (StdString × List ℕ) :=
  t.indexes.map (fun I => (I.name, I.keyMap))

/-- **A round that rewrites a row in its place.** -/
structure Rewritten (a : Assignment) (rid : RowId) (old : List Field) (t t' : TableInfo) :
    Prop where
  got : t.heap.live rid = some old
  sets : ∃ c f, Sets t.schema a c f
  becomes : t.Becomes t' (Function.update t.heap.live rid (some (a.apply t.schema old)))
    (Swaps old (a.apply t.schema old) rid)
  heap : t'.heap = t.heapAfter [(a, rid)]

/-- The fields of a row of the schema are of valid types. -/
theorem typeId_of_rowOf {s : Schema} (h : PagedHeap.RowOf s old) :
    ∀ f ∈ old, f.typeId ≠ .kTypeInvalid := by
  intro f hf
  obtain ⟨c, -, hc⟩ := exists_mem_of_forall₂ h.1 hf
  rw [hc.1]
  exact c.supported

/-- The new row is one of the schema, and as large as the old one. -/
theorem KeepsSizes.newRow (ht : t.KeepsSizes as S) (ha : a ∈ as) (hS : S rid)
    (hlive : t.heap.live rid = some old) (hnew : t.newRow a old = some (some new)) :
    PagedHeap.RowOf t.schema new ∧ new.map Field.size = old.map Field.size ∧
      Sized.size new = Sized.size old := by
  have hrow : PagedHeap.RowOf t.schema new := rowOf_newRow (ht.rowOf rid old hlive) hnew
  obtain ⟨c, f, hsets, hlen, rfl⟩ := newRow_eq_some.mp hnew
  have hg : old[c]? = some old[c] := List.getElem?_eq_getElem hlen
  have hsize : f.size = old[c].size := ht.sizes a ha c f hsets rid hS old _ hlive hg
  have hmap : (old.set c f).map Field.size = old.map Field.size := map_size_set hg hsize
  refine ⟨hrow, hmap, ?_⟩
  rw [sized_eq (typeId_of_rowOf hrow), sized_eq (typeId_of_rowOf (ht.rowOf rid old hlive)),
    rowSize, rowSize, hmap]

/-- **One round** rewrites the row in its place, and keeps the sizes. -/
theorem KeepsSizes.updateRow (ht : t.KeepsSizes as S) (ha : a ∈ as) (hS : S rid)
    (h : t.updateRow a rid = some (t', true)) :
    ∃ old, Rewritten a rid old t t' ∧ t'.KeepsSizes as S := by
  rcases updateRow_eq_some h with
    ⟨⟨⟩, -⟩ | ⟨-, old, new, hlive, hnew, -, ⟨hschema, hids⟩, hall, b, hup⟩
  obtain ⟨hrow, hmap, hsize⟩ := ht.newRow ha hS hlive hnew
  have hpos : Sized.size new ≠ 0 := hsize ▸ ht.stored rid old hlive
  obtain ⟨p, hp, hs⟩ := TableHeap.exists_fetchPage hlive
  have hrid : rid ≠ invalidRowId :=
    ht.wellFormed.ne_invalid (List.mem_of_find?_eq_some hp) (TableHeap.pageId_of_fetchPage hp)
  obtain ⟨p, hp, hs, hplace⟩ := TableHeap.updateTuple_inPlace t.ids hlive hrid
    (TableHeap.fits_of_size_le hlive hsize.le) hpos
  rw [hplace] at hup
  have hheap : t'.heap = t.heap.setSlots rid.pageId (p.slots.set rid.slotNum (.live new)) :=
    (congrArg Prod.fst (Option.some.inj hup)).symm
  have hlt : rid.slotNum < p.slots.length := (List.getElem?_eq_some_iff.mp hs).1
  have hlive' : t'.heap.live = Function.update t.heap.live rid (some new) := by
    rw [hheap, TableHeap.live_setSlots hp (fun j hj => List.getElem?_set_ne (Ne.symm hj)),
      TableHeap.getTuple_eq_some.mpr (List.getElem?_set_self hlt)]
  have hwf : t'.heap.WellFormed t'.ids := by
    rw [hheap, hids]
    exact ht.wellFormed.setSlots _ _
  obtain ⟨c, f, hsets, hlen, hset⟩ := newRow_eq_some.mp hnew
  cases eq_apply_of_newRow hnew
  have hmapped := ht.wellFormed.setSlots_set hp hs (a.apply t.schema)
  refine ⟨old, ⟨hlive, ⟨c, f, hsets⟩, ⟨hschema, hids, hwf, hlive', hall⟩,
    (hheap.trans hmapped).trans heapAfter_singleton.symm⟩, hwf, ?_, ?_, ?_⟩
  · intro q row hq
    rw [hschema]
    by_cases hqr : q = rid
    · rw [hlive', hqr, Function.update_self] at hq
      exact Option.some.inj hq ▸ hrow
    · rw [hlive', Function.update_of_ne hqr] at hq
      exact ht.rowOf q row hq
  · intro q row hq
    by_cases hqr : q = rid
    · rw [hlive', hqr, Function.update_self] at hq
      exact Option.some.inj hq ▸ hpos
    · rw [hlive', Function.update_of_ne hqr] at hq
      exact ht.stored q row hq
  · intro b hb c f hsets q hq row g hrowq hg
    rw [hschema] at hsets
    by_cases hqr : q = rid
    · rw [hlive', hqr, Function.update_self] at hrowq
      -- the old row has a field of the same size there
      have hsame := congrArg (fun sizes => sizes[c]?) hmap
      rw [List.getElem?_map, Option.some.inj hrowq, hg, Option.map_some, List.getElem?_map] at hsame
      obtain ⟨g', hg', hsize'⟩ := Option.map_eq_some_iff.mp hsame.symm
      rw [ht.sizes b hb c f hsets rid hS old g' hlive hg', hsize']
    · rw [hlive', Function.update_of_ne hqr] at hrowq
      exact ht.sizes b hb c f hsets q hq row g hrowq hg

/-! ## Rounds that succeed -/

/-- A key of the new row, where the old one has a key. -/
theorem key_isSome_of_sizes {I : IndexInfo} (hold : ∀ f ∈ old, f.typeId ≠ .kTypeInvalid)
    (hnew : ∀ f ∈ new, f.typeId ≠ .kTypeInvalid) (hmap : new.map Field.size = old.map Field.size)
    (hkey : (I.key old).isSome = true) : (I.key new).isSome = true := by
  have hlen : new.length = old.length := by
    rw [← List.length_map (f := Field.size), hmap, List.length_map]
  have hcols : ∀ c ∈ I.keyMap, c < old.length := by
    obtain ⟨k, hk⟩ := Option.isSome_iff_exists.mp hkey
    obtain ⟨fields, hfields, -⟩ := Option.bind_eq_some_iff.mp hk
    intro c hc
    obtain ⟨f, -, hf⟩ := exists_mem_of_forall₂ (forall₂_of_mapM hfields).flip hc
    exact (List.getElem?_eq_some_iff.mp hf).1
  have hsame : I.keySize new = I.keySize old := by
    have hfield : ∀ c, new[c]?.map Field.size = old[c]?.map Field.size := fun c => by
      rw [← List.getElem?_map, hmap, List.getElem?_map]
    rw [IndexInfo.keySize, IndexInfo.keySize]
    exact congrArg List.sum (List.map_congr_left (fun c _ => by rw [hfield]))
  rw [IndexInfo.key_isSome hnew (fun c hc => hlen ▸ hcols c hc), hsame]
  exact (IndexInfo.key_isSome hold hcols).mp hkey

/-- The search for a duplicate gets to its end, where there are keys to search for. -/
theorem duplicate_isSome {row : List Field} {Is : List IndexInfo}
    (h : ∀ I ∈ Is, (I.key row).isSome = true) : (duplicate row Is).isSome = true := by
  induction Is with
  | nil => rfl
  | cons I Is ih =>
    rw [List.forall_mem_cons] at h
    obtain ⟨k, hk⟩ := Option.isSome_iff_exists.mp h.1
    rw [duplicate, hk]
    dsimp only
    by_cases hscan : I.scanKey k = true
    · rw [if_pos hscan]
      rfl
    · rw [if_neg hscan]
      exact ih h.2

/-- A duplicate is found in some index. -/
theorem exists_of_duplicate_eq_true {row : List Field} {Is : List IndexInfo}
    (h : duplicate row Is = some true) :
    ∃ I ∈ Is, ∃ k, I.key row = some k ∧ I.scanKey k = true := by
  induction Is with
  | nil => cases h
  | cons I Is ih =>
    unfold duplicate at h
    split at h
    · cases h
    · rename_i k hk
      split at h
      · rename_i hscan
        exact ⟨I, List.mem_cons_self, k, hk, hscan⟩
      · obtain ⟨J, hJ, hkey⟩ := ih h
        exact ⟨J, List.mem_cons_of_mem I hJ, hkey⟩

/-- All keys are replaced, where there are keys. -/
theorem exists_mapM_rewriteRow {Is : List IndexInfo} (hrid : rid ≠ invalidRowId)
    (h : ∀ I ∈ Is, (I.key old).isSome = true ∧ (I.key new).isSome = true) :
    ∃ Is', Is.mapM (rewriteRow old new rid) = some Is' := by
  induction Is with
  | nil => exact ⟨[], rfl⟩
  | cons I Is ih =>
    rw [List.forall_mem_cons] at h
    obtain ⟨k, hk⟩ := Option.isSome_iff_exists.mp h.1.1
    obtain ⟨k', hk'⟩ := Option.isSome_iff_exists.mp h.1.2
    obtain ⟨Is', hIs⟩ := ih h.2
    have hinsert : ∃ J, rewriteRow old new rid I = some J := by
      unfold rewriteRow
      rw [hk, hk']
      dsimp only
      rw [insertEntry, if_neg hrid]
      by_cases hscan : (I.removeEntry k).scanKey k' = true
      · rw [if_pos hscan]
        exact ⟨_, rfl⟩
      · rw [if_neg hscan]
        exact ⟨_, rfl⟩
    obtain ⟨J, hJ⟩ := hinsert
    refine ⟨J :: Is', ?_⟩
    rw [List.mapM_cons, hJ, hIs]
    rfl

/-- No index that a round looks into has the new key. -/
def Unblocked (a : Assignment) (t : TableInfo) (rid : RowId) : Prop :=
  ∀ old new, t.heap.live rid = some old → t.newRow a old = some (some new) → ¬ t.Blocked a new

/-- **A round that finds no duplicate** succeeds, where the row and its keys are there. -/
theorem KeepsSizes.exists_updateRow (ht : t.KeepsSizes as S) (hagree : t.IndexesAgree)
    (ha : a ∈ as) (hS : S rid) (hlive : t.heap.live rid = some old)
    (hsets : ∃ c f, Sets t.schema a c f) (hfree : Unblocked a t rid) :
    ∃ t', t.updateRow a rid = some (t', true) := by
  obtain ⟨c, f, hsets⟩ := hsets
  have hlen : c < old.length := by
    obtain ⟨-, col, hcol, -⟩ := id hsets
    rw [← (ht.rowOf rid old hlive).1.length_eq]
    exact (List.getElem?_eq_some_iff.mp hcol).1
  have hnew : t.newRow a old = some (some (old.set c f)) :=
    newRow_eq_some.mpr ⟨c, f, hsets, hlen, rfl⟩
  obtain ⟨hrow, hmap, hsize⟩ := ht.newRow ha hS hlive hnew
  have hkeys : ∀ I ∈ t.indexes,
      (I.key old).isSome = true ∧ (I.key (old.set c f)).isSome = true := by
    intro I hI
    obtain ⟨k, hk, -⟩ := (hagree I hI).1 rid old hlive
    have hold : (I.key old).isSome = true := Option.isSome_iff_exists.mpr ⟨k, hk⟩
    exact ⟨hold, key_isSome_of_sizes (typeId_of_rowOf (ht.rowOf rid old hlive))
      (typeId_of_rowOf hrow) hmap hold⟩
  obtain ⟨p, hp, hs⟩ := TableHeap.exists_fetchPage hlive
  have hrid : rid ≠ invalidRowId :=
    ht.wellFormed.ne_invalid (List.mem_of_find?_eq_some hp) (TableHeap.pageId_of_fetchPage hp)
  have hget : t.heap.getTuple rid = some (some old) := by
    rw [TableHeap.getTuple, if_neg hrid, hp]
    exact congrArg some (TableHeap.getTuple_eq_some.mpr hs)
  have hdup : duplicate (old.set c f)
      (t.indexes.filter (fun I => I.startsWith t.schema a.column)) = some false := by
    obtain ⟨found, hfound⟩ := Option.isSome_iff_exists.mp
      (duplicate_isSome (fun I hI => (hkeys I (List.mem_filter.mp hI).1).2))
    cases found with
    | true => exact absurd hfound (hfree old _ hlive hnew)
    | false => exact hfound
  obtain ⟨Is, hIs⟩ := exists_mapM_rewriteRow hrid hkeys
  obtain ⟨p, -, -, hup⟩ := TableHeap.updateTuple_inPlace t.ids hlive hrid
    (TableHeap.fits_of_size_le hlive hsize.le) (hsize ▸ ht.stored rid old hlive)
  unfold TableInfo.updateRow
  rw [hget]
  dsimp only [Option.getD_some]
  rw [hnew]
  dsimp only
  rw [hdup]
  dsimp only
  rw [hIs]
  dsimp only
  rw [hup]
  exact ⟨_, rfl⟩

/-! ## Runs of rounds -/

/-- One round: an assignment, for a row. -/
def round (t : TableInfo) (r : Assignment × RowId) : Option (TableInfo × Bool) :=
  t.updateRow r.1 r.2

/-- **Rounds that succeed.** -/
structure Ran (rs : List (Assignment × RowId)) (t t' : TableInfo) : Prop where
  schema : t'.schema = t.schema
  ids : t'.ids = t.ids
  heap : t'.heap = t.heapAfter rs
  keyColumns : t'.keyColumns = t.keyColumns
  rows : ∀ r ∈ rs, (t.heap.live r.2).isSome = true ∧ ∃ c f, Sets t.schema r.1 c f

variable {rs : List (Assignment × RowId)}

theorem Rewritten.shape (h : Rewritten a rid old t t') : t'.heap.shape = t.heap.shape := by
  rw [h.heap, heapAfter, TableHeap.shape_mapRows]

theorem Ran.live (h : Ran rs t t') (q : RowId) :
    t'.heap.live q = (t.heap.live q).map (applyAll t.schema (assigned rs q)) := by
  rw [h.heap, heapAfter, TableHeap.live_mapRows]

theorem Ran.shape (h : Ran rs t t') : t'.heap.shape = t.heap.shape := by
  rw [h.heap, heapAfter, TableHeap.shape_mapRows]

theorem ran_nil : Ran [] t t where
  schema := rfl
  ids := rfl
  heap := (heapAfter_nil t).symm
  keyColumns := rfl
  rows := nofun

/-- No round changes what an index is on. -/
theorem Becomes.keyColumns {live : RowId → Option (List Field)} {R : IndexInfo → Entries → Prop}
    (h : t.Becomes t' live R) : t'.keyColumns = t.keyColumns := by
  have hall := h.indexes
  unfold TableInfo.keyColumns
  generalize t.indexes = Is, t'.indexes = Is' at hall
  induction hall with
  | nil => rfl
  | cons hI _ ih => rw [List.map_cons, List.map_cons, ih, hI.1]

/-- A round before the others. -/
theorem Ran.cons {t₁ : TableInfo} (h₁ : Rewritten a rid old t t₁) (h : Ran rs t₁ t') :
    Ran ((a, rid) :: rs) t t' := by
  refine ⟨h.schema.trans h₁.becomes.schema, h.ids.trans h₁.becomes.ids, ?_,
    h.keyColumns.trans h₁.becomes.keyColumns, ?_⟩
  · rw [h.heap, heapAfter_cons h₁.becomes.schema h₁.heap]
  · rw [List.forall_mem_cons]
    refine ⟨⟨Option.isSome_iff_exists.mpr ⟨old, h₁.got⟩, h₁.sets⟩, fun r hr => ?_⟩
    obtain ⟨hrow, hsets⟩ := h.rows r hr
    rw [h₁.becomes.schema] at hsets
    rw [h₁.heap, heapAfter, TableHeap.live_mapRows, Option.isSome_map] at hrow
    exact ⟨hrow, hsets⟩

/-- **What rounds that succeed do.** -/
theorem KeepsSizes.ran (ht : t.KeepsSizes as S) (hrs : ∀ r ∈ rs, r.1 ∈ as ∧ S r.2)
    (h : Loops.forEach round t rs = some (t', true)) : Ran rs t t' ∧ t'.KeepsSizes as S := by
  induction rs generalizing t with
  | nil =>
    cases h
    exact ⟨ran_nil, ht⟩
  | cons r rs ih =>
    rw [List.forall_mem_cons] at hrs
    obtain ⟨t₁, hround, hrest⟩ := Loops.forEach_cons_true h
    obtain ⟨old, h₁, ht₁⟩ := ht.updateRow hrs.1.1 hrs.1.2 hround
    obtain ⟨hran, ht'⟩ := ih ht₁ hrs.2 hrest
    exact ⟨hran.cons h₁, ht'⟩

/-! ## New keys -/

/-- **No row has the new key** of a round. In the indexes that the round looks into, whose key
starts with the assigned column, this is said of all rows; in the indexes that it does not look
into, of all rows but the one that is updated. -/
def KeyFree (s : Schema) (Is : List IndexInfo) (start : Bool) (a : Assignment) (rid : RowId)
    (h : TableHeap) : Prop :=
  ∀ I ∈ Is, I.startsWith s a.column = start → ∀ old, h.live rid = some old →
    ∀ q row, h.live q = some row → (start = false → q ≠ rid) → I.key row ≠ I.key (a.apply s old)

/-- Every round of a statement has a new key, in the rows that the rounds before it leave. -/
def NewKeys (start : Bool) (t : TableInfo) (rs : List (Assignment × RowId)) : Prop :=
  ∀ pre a rid post, rs = pre ++ (a, rid) :: post →
    KeyFree t.schema t.indexes start a rid (t.heapAfter pre)

theorem newKeys_nil {start : Bool} : NewKeys start t [] := fun pre a rid post hsplit =>
  absurd hsplit.symm (List.append_ne_nil_of_right_ne_nil pre (List.cons_ne_nil (a, rid) post))

/-- One round more. -/
theorem NewKeys.concat {start : Bool} (h : NewKeys start t rs)
    (hlast : KeyFree t.schema t.indexes start a rid (t.heapAfter rs)) :
    NewKeys start t (rs ++ [(a, rid)]) := by
  intro pre b q post hsplit
  rcases List.eq_nil_or_concat' post with rfl | ⟨post, r, rfl⟩
  · obtain ⟨rfl, hr⟩ := List.append_inj' hsplit rfl
    cases hr
    exact hlast
  · rw [← List.cons_append, ← List.append_assoc] at hsplit
    obtain ⟨rfl, -⟩ := List.append_inj' hsplit rfl
    exact h pre b q post rfl

/-- An index on the same columns. -/
theorem exists_sameKey (h : t'.keyColumns = t.keyColumns) {I' : IndexInfo} (hI' : I' ∈ t'.indexes) :
    ∃ I ∈ t.indexes, I'.keyMap = I.keyMap := by
  have hmem : (I'.name, I'.keyMap) ∈ t.keyColumns := h ▸ List.mem_map_of_mem hI'
  obtain ⟨I, hI, heq⟩ := List.mem_map.mp hmem
  exact ⟨I, hI, (Prod.mk.inj heq).2.symm⟩

theorem KeyFree.of_keyColumns {s : Schema} {start : Bool} {h : TableHeap}
    (hfree : KeyFree s t.indexes start a rid h) (hcols : t'.keyColumns = t.keyColumns) :
    KeyFree s t'.indexes start a rid h := by
  intro I' hI'
  obtain ⟨I, hI, hmap⟩ := exists_sameKey hcols hI'
  have hkey : I'.key = I.key := by
    funext row
    rw [IndexInfo.key, IndexInfo.key, hmap]
  rw [IndexInfo.startsWith, hmap, hkey]
  exact hfree I hI

/-- **The first round and the others.** -/
theorem Rewritten.newKeys_iff {start : Bool} (h : Rewritten a rid old t t') :
    NewKeys start t ((a, rid) :: rs) ↔
      KeyFree t.schema t.indexes start a rid t.heap ∧ NewKeys start t' rs := by
  have hschema := h.becomes.schema
  have hcols := h.becomes.keyColumns
  constructor
  · intro hall
    refine ⟨?_, fun pre b q post hsplit => ?_⟩
    · rw [← heapAfter_nil t]
      exact hall [] a rid rs rfl
    · rw [heapAfter_cons hschema h.heap, hschema]
      have hround := hall ((a, rid) :: pre) b q post (by rw [hsplit]; rfl)
      exact hround.of_keyColumns hcols
  · rintro ⟨hfirst, hrest⟩ pre b q post hsplit
    cases pre with
    | nil =>
      cases hsplit
      rw [heapAfter_nil]
      exact hfirst
    | cons r pre =>
      obtain ⟨hr, hsplit⟩ := List.cons.inj hsplit
      have hround := hrest pre b q post hsplit
      rw [heapAfter_cons hschema h.heap, hschema, hr] at hround
      exact hround.of_keyColumns hcols.symm

/-- The check that a round leaves out passes. -/
theorem KeyFree.checksAll (h : KeyFree t.schema t.indexes false a rid t.heap)
    (hagree : t.IndexesAgree) : ChecksAll a t rid := by
  intro old new hlive hnew _ I hI hstart k hk
  cases hentry : I.container k with
  | none => exact .inr rfl
  | some q =>
    obtain ⟨row, hrow, hkey⟩ := (hagree I hI).2 k q hentry
    by_cases hq : q = rid
    · rw [hq, hlive] at hrow
      cases hrow
      exact .inl hkey
    · have hne := h I hI hstart old hlive q row hrow (fun _ => hq)
      rw [← eq_apply_of_newRow hnew, hk, hkey] at hne
      exact absurd rfl hne

/-- The check that a round makes passes. -/
theorem KeyFree.unblocked (h : KeyFree t.schema t.indexes true a rid t.heap)
    (hagree : t.IndexesAgree) : Unblocked a t rid := by
  intro old new hlive hnew hblocked
  obtain ⟨I, hI, k, hk, hscan⟩ := exists_of_duplicate_eq_true hblocked
  obtain ⟨hI, hstart⟩ := List.mem_filter.mp hI
  obtain ⟨q, hq⟩ := Option.isSome_iff_exists.mp hscan
  obtain ⟨row, hrow, hkey⟩ := (hagree I hI).2 k q hq
  refine h I hI hstart old hlive q row hrow nofun ?_
  rw [← eq_apply_of_newRow hnew, hk, hkey]

/-- A round that succeeds has made its check. -/
theorem Checked.keyFree {new : List Field} (hcheck : t.Checked a new)
    (hagree : t.IndexesAgree) (hlive : t.heap.live rid = some old)
    (hnew : t.newRow a old = some (some new)) :
    KeyFree t.schema t.indexes true a rid t.heap := by
  intro I hI hstart old' hlive' q row hrow _ hsame
  cases hlive.symm.trans hlive'
  obtain ⟨k, hk, hnone⟩ := hcheck I hI hstart
  obtain ⟨k', hk', hentry⟩ := (hagree I hI).1 q row hrow
  rw [← eq_apply_of_newRow hnew, hk, hk'] at hsame
  cases hsame
  rw [hnone] at hentry
  cases hentry

/-- A row that keeps its size stays in its place. -/
theorem KeepsSizes.rowStays (ht : t.KeepsSizes as S) (ha : a ∈ as) (hS : S rid) :
    RowStays a t rid := by
  intro _ old new hlive hnew _
  obtain ⟨-, -, hsize⟩ := ht.newRow ha hS hlive hnew
  exact TableHeap.fits_of_size_le hlive hsize.le

/-- **Rounds that succeed** have passed their checks, and with the check that they leave out
the indexes agree with the heap in the end. -/
theorem KeepsSizes.agree_of_forEach (ht : t.KeepsSizes as S) (hagree : t.IndexesAgree)
    (hrs : ∀ r ∈ rs, r.1 ∈ as ∧ S r.2) (hapart : NewKeys false t rs)
    (h : Loops.forEach round t rs = some (t', true)) :
    t'.IndexesAgree ∧ NewKeys true t rs := by
  induction rs generalizing t with
  | nil =>
    cases h
    exact ⟨hagree, newKeys_nil⟩
  | cons r rs ih =>
    rw [List.forall_mem_cons] at hrs
    obtain ⟨t₁, hround, hrest⟩ := Loops.forEach_cons_true h
    obtain ⟨old, h₁, ht₁⟩ := ht.updateRow hrs.1.1 hrs.1.2 hround
    obtain ⟨hfirst, hapart⟩ := h₁.newKeys_iff.mp hapart
    have hagree₁ : t₁.IndexesAgree := (Consistent.updateRow ⟨ht.wellFormed, hagree⟩
      ⟨hfirst.checksAll hagree, ht.rowStays hrs.1.1 hrs.1.2⟩ hround).agree
    obtain ⟨hagree', hnew⟩ := ih ht₁ hagree₁ hrs.2 hapart hrest
    rcases updateRow_eq_some hround with ⟨⟨⟩, -⟩ | ⟨-, old', new, hlive, hnewRow, hcheck, -⟩
    exact ⟨hagree', h₁.newKeys_iff.mpr ⟨hcheck.keyFree hagree hlive hnewRow, hnew⟩⟩

/-- **When rounds succeed**: every row is there, every assignment sets a field and all keys
are new. -/
theorem KeepsSizes.exists_forEach (ht : t.KeepsSizes as S) (hagree : t.IndexesAgree)
    (hrs : ∀ r ∈ rs, r.1 ∈ as ∧ S r.2)
    (hrows : ∀ r ∈ rs, (t.heap.live r.2).isSome = true ∧ ∃ c f, Sets t.schema r.1 c f)
    (hnew : NewKeys true t rs) (hapart : NewKeys false t rs) :
    ∃ t', Loops.forEach round t rs = some (t', true) := by
  induction rs generalizing t with
  | nil => exact ⟨t, rfl⟩
  | cons r rs ih =>
    rw [List.forall_mem_cons] at hrs hrows
    obtain ⟨old, hold⟩ := Option.isSome_iff_exists.mp hrows.1.1
    have hunblocked : Unblocked r.1 t r.2 := by
      have hfirst := hnew [] r.1 r.2 rs rfl
      rw [heapAfter_nil] at hfirst
      exact hfirst.unblocked hagree
    obtain ⟨t₁, hround⟩ := ht.exists_updateRow hagree hrs.1.1 hrs.1.2 hold hrows.1.2 hunblocked
    obtain ⟨old', h₁, ht₁⟩ := ht.updateRow hrs.1.1 hrs.1.2 hround
    have hone : Loops.forEach round t [r] = some (t₁, true) :=
      Loops.forEach_singleton.mpr hround
    have hapart₁ := h₁.newKeys_iff.mp hapart
    have hagree₁ : t₁.IndexesAgree := (Consistent.updateRow ⟨ht.wellFormed, hagree⟩
      ⟨hapart₁.1.checksAll hagree, ht.rowStays hrs.1.1 hrs.1.2⟩ hround).agree
    have hrows₁ : ∀ r' ∈ rs,
        (t₁.heap.live r'.2).isSome = true ∧ ∃ c f, Sets t₁.schema r'.1 c f := by
      intro r' hr'
      rw [h₁.becomes.schema, h₁.heap, heapAfter, TableHeap.live_mapRows, Option.isSome_map]
      exact hrows.2 r' hr'
    obtain ⟨t', hrest⟩ := ih ht₁ hagree₁ hrs.2 hrows₁ (h₁.newKeys_iff.mp hnew).2 hapart₁.2
    refine ⟨t', ?_⟩
    rw [Loops.forEach, Loops.forEach_singleton.mp hone]
    exact hrest

/-! ## The statement -/

/-- The row ids that a statement goes over: what its `WHERE` clause selects, which may fail,
or, without one, what a scan comes to. -/
def rowsOf (clause : Option (TableInfo → Option (List RowId))) (rounds : ℕ) (t : TableInfo) :
    Option (List RowId) :=
  match clause with
  | some select => select t
  | none => Loops.walk nextRow rounds t t.heap.begin

/-- `ExecuteUpdate`, with what its `WHERE` clause selects in the table. -/
def updateWhere (t : TableInfo) (as : List Assignment)
    (clause : Option (TableInfo → Option (List RowId))) (rounds : ℕ) : Option (TableInfo × Bool) :=
  match clause with
  | some select =>
    match select t with
    | none => some (t, false)
    | some rids => t.executeUpdate as (some rids) rounds
  | none => t.executeUpdate as none rounds

variable {bs : List Assignment} {clause : Option (TableInfo → Option (List RowId))} {rounds : ℕ}

/-- Over selected rows, the statement is a loop over pairs. -/
theorem executeUpdate_some (rids : List RowId) :
    t.executeUpdate as (some rids) rounds = Loops.forEach round t (roundsOf as rids) := by
  have hrows : updateRows (some rids) rounds =
      fun t a => Loops.forEach round t (rids.map (fun rid => (a, rid))) := by
    funext t a
    rw [Loops.forEach_map]
    rfl
  rw [executeUpdate, hrows, Loops.forEach_flatMap, roundsOf]

/-- Rounds that succeed change nothing for a scan. -/
theorem Ran.walk (h : Ran rs t t') :
    Loops.walk nextRow rounds t' t'.heap.begin = Loops.walk nextRow rounds t t.heap.begin := by
  rw [TableHeap.begin_congr h.shape]
  refine Loops.walk_congr (fun rid => ?_) rounds t.heap.begin
  exact TableHeap.next_congr h.shape rid

/-- **Over the whole table**, it is one as well, since no round moves a row. -/
theorem KeepsSizes.executeUpdate_none (ht : t.KeepsSizes as S) (hS : ∀ q, S q) (hbs : bs ⊆ as) :
    t.executeUpdate bs none rounds = some (t', true) ↔
      (bs = [] ∨ (Loops.walk nextRow rounds t t.heap.begin).isSome = true) ∧
        Loops.forEach round t (roundsOf bs ((Loops.walk nextRow rounds t t.heap.begin).getD []))
          = some (t', true) := by
  unfold executeUpdate
  induction bs generalizing t with
  | nil => exact (and_iff_right (.inl rfl)).symm
  | cons b bs ih =>
    obtain ⟨hb, hbs⟩ := List.cons_subset.mp hbs
    -- one assignment
    have hrows : ∀ t₁, updateRows none rounds t b = some (t₁, true) ↔
        ∃ xs, Loops.walk nextRow rounds t t.heap.begin = some xs ∧
          Loops.forEach round t (xs.map (fun rid => (b, rid))) = some (t₁, true) := by
      intro t₁
      simp only [Loops.forEach_map]
      refine Loops.scan_eq_true_iff (I := KeepsSizes as S) (fun s rid s' hs hround => ?_) ht
      obtain ⟨old, h₁, hs'⟩ := hs.updateRow hb (hS rid) hround
      exact ⟨hs', fun rid => TableHeap.next_congr h₁.shape rid⟩
    have hran : ∀ (xs : List RowId) t₁,
        Loops.forEach round t (xs.map (fun rid => (b, rid))) = some (t₁, true) →
        Loops.walk nextRow rounds t₁ t₁.heap.begin = Loops.walk nextRow rounds t t.heap.begin ∧
          t₁.KeepsSizes as S := by
      intro xs t₁ h
      obtain ⟨hran, ht₁⟩ := ht.ran (fun r hr => by
        obtain ⟨rid, -, rfl⟩ := List.mem_map.mp hr
        exact ⟨hb, hS rid⟩) h
      exact ⟨hran.walk, ht₁⟩
    rw [or_iff_right (List.cons_ne_nil b bs)]
    constructor
    · intro h
      obtain ⟨t₁, hfirst, hrest⟩ := Loops.forEach_cons_true h
      obtain ⟨xs, hxs, hround⟩ := (hrows t₁).mp hfirst
      obtain ⟨hwalk, ht₁⟩ := hran xs t₁ hround
      obtain ⟨-, hrest⟩ := (ih ht₁ hbs).mp hrest
      rw [hwalk, hxs] at hrest
      refine ⟨by rw [hxs]; rfl, ?_⟩
      rw [hxs, Option.getD_some, roundsOf, List.flatMap_cons, Loops.forEach_append, hround]
      exact hrest
    · rintro ⟨hsome, h⟩
      obtain ⟨xs, hxs⟩ := Option.isSome_iff_exists.mp hsome
      rw [hxs, Option.getD_some, roundsOf, List.flatMap_cons, Loops.forEach_append] at h
      cases hfirst : Loops.forEach round t (xs.map (fun rid => (b, rid))) with
      | none =>
        rw [hfirst] at h
        cases h
      | some r =>
        obtain ⟨t₁, ok⟩ := r
        rw [hfirst] at h
        cases ok with
        | false => cases h
        | true =>
          obtain ⟨hwalk, ht₁⟩ := hran xs t₁ hfirst
          rw [Loops.forEach, (hrows t₁).mpr ⟨xs, hxs, hfirst⟩]
          refine (ih ht₁ hbs).mpr ?_
          rw [hwalk, hxs]
          exact ⟨.inr rfl, h⟩

/-- The statement gets as far as to its rounds. -/
def Starts (as : List Assignment) (clause : Option (TableInfo → Option (List RowId)))
    (rounds : ℕ) (t : TableInfo) : Prop :=
  as = [] ∧ clause = none ∨ (rowsOf clause rounds t).isSome = true

/-- The rounds that it makes. -/
def roundsAt (as : List Assignment) (clause : Option (TableInfo → Option (List RowId)))
    (rounds : ℕ) (t : TableInfo) : List (Assignment × RowId) :=
  roundsOf as ((rowsOf clause rounds t).getD [])

/-- The rows that the statement is about: all, where it has no `WHERE` clause. -/
def Picks (clause : Option (TableInfo → Option (List RowId))) (t : TableInfo) (q : RowId) : Prop :=
  match clause with
  | some select => ∃ rids, select t = some rids ∧ q ∈ rids
  | none => True

/-- **The statement is a loop over its rounds.** -/
theorem KeepsSizes.updateWhere_eq_true (ht : t.KeepsSizes as S) (hS : clause = none → ∀ q, S q) :
    t.updateWhere as clause rounds = some (t', true) ↔
      Starts as clause rounds t ∧
        Loops.forEach round t (roundsAt as clause rounds t) = some (t', true) := by
  unfold updateWhere Starts roundsAt rowsOf
  cases clause with
  | none =>
    rw [and_iff_left rfl]
    exact ht.executeUpdate_none (hS rfl) (List.Subset.refl as)
  | some select =>
    dsimp only
    rw [or_iff_right (fun hc => Option.some_ne_none select hc.2)]
    cases hrids : select t with
    | none => exact iff_of_false nofun (fun hc => nomatch hc.1)
    | some rids =>
      rw [Option.getD_some, ← executeUpdate_some]
      exact (and_iff_right rfl).symm

/-- The rounds are about rows that the statement is about. -/
theorem mem_roundsAt {r : Assignment × RowId} (hr : r ∈ roundsAt as clause rounds t) :
    r.1 ∈ as ∧ Picks clause t r.2 := by
  obtain ⟨ha, hrid⟩ := mem_roundsOf.mp hr
  refine ⟨ha, ?_⟩
  cases clause with
  | none => trivial
  | some select =>
    unfold rowsOf at hrid
    dsimp only at hrid
    cases hrids : select t with
    | none =>
      rw [hrids] at hrid
      cases hrid
    | some rids =>
      rw [hrids] at hrid
      exact ⟨rids, hrids, hrid⟩

/-- The same statement again succeeds and changes nothing. -/
def Repeats (as : List Assignment) (clause : Option (TableInfo → Option (List RowId)))
    (rounds : ℕ) (t : TableInfo) : Prop :=
  ∃ t', t.updateWhere as clause rounds = some (t', true) ∧ Unchanged t t'

/-- **Nothing is left to be done**: the `WHERE` clause selects rows that have the values
already, and no row has the new key of a round in an index that it looks into. -/
structure Settled (as : List Assignment) (clause : Option (TableInfo → Option (List RowId)))
    (rounds : ℕ) (t : TableInfo) : Prop where
  starts : Starts as clause rounds t
  rows : ∀ r ∈ roundsAt as clause rounds t,
    ∃ row, t.heap.live r.2 = some row ∧ applyAll t.schema as row = row
  newKeys : NewKeys true t (roundsAt as clause rounds t)

/-- What the rounds of a statement make of the rows. -/
theorem applyAll_roundsAt (q : RowId) (row : List Field) :
    applyAll t.schema (assigned (roundsAt as clause rounds t) q) row =
      if q ∈ (rowsOf clause rounds t).getD [] then applyAll t.schema as row else row :=
  applyAll_assigned _ q

/-- **A statement that changes nothing** has nothing to do. -/
theorem KeepsSizes.settled_of_repeats (ht : t.KeepsSizes as S)
    (hS : ∀ q, Picks clause t q → S q) (hagree : t.IndexesAgree)
    (hapart : NewKeys false t (roundsAt as clause rounds t))
    (h : Repeats as clause rounds t) : Settled as clause rounds t := by
  obtain ⟨t', hrun, hlive, -⟩ := h
  have hall : clause = none → ∀ q, S q := fun hnone q => hS q (by rw [hnone]; trivial)
  have hrs : ∀ r ∈ roundsAt as clause rounds t, r.1 ∈ as ∧ S r.2 :=
    fun r hr => (mem_roundsAt hr).imp_right (hS r.2)
  obtain ⟨hstarts, hrounds⟩ := (ht.updateWhere_eq_true hall).mp hrun
  obtain ⟨hran, -⟩ := ht.ran hrs hrounds
  obtain ⟨-, hnew⟩ := ht.agree_of_forEach hagree hrs hapart hrounds
  refine ⟨hstarts, fun r hr => ?_, hnew⟩
  obtain ⟨row, hrow⟩ := Option.isSome_iff_exists.mp (hran.rows r hr).1
  refine ⟨row, hrow, ?_⟩
  have hsame := (hran.live r.2).symm.trans (congrFun hlive r.2)
  rw [hrow, Option.map_some, applyAll_roundsAt, if_pos (mem_roundsOf.mp hr).2] at hsame
  exact Option.some.inj hsame

/-- Indexes that agree with the same rows, and are on the same columns, are the same. -/
theorem indexes_eq_of_agree (hagree : t.IndexesAgree) (hagree' : t'.IndexesAgree)
    (hlive : t'.heap.live = t.heap.live) (hcols : t'.keyColumns = t.keyColumns) :
    t'.indexes = t.indexes := by
  unfold TableInfo.keyColumns at hcols
  unfold IndexesAgree at hagree hagree'
  rw [hlive] at hagree'
  generalize t.indexes = Is, t'.indexes = Is' at hcols hagree hagree'
  induction Is generalizing Is' with
  | nil => exact List.map_eq_nil_iff.mp hcols
  | cons I Is ih =>
    cases Is' with
    | nil => cases hcols
    | cons I' Is' =>
      rw [List.map_cons, List.map_cons] at hcols
      obtain ⟨hhead, htail⟩ := List.cons.inj hcols
      obtain ⟨hname, hmap⟩ := Prod.mk.inj hhead
      rw [List.forall_mem_cons] at hagree hagree'
      have hkey : I'.key = I.key := by
        funext row
        rw [IndexInfo.key, IndexInfo.key, hmap]
      have hcontainer : I'.container = I.container :=
        hagree.1.unique (hkey ▸ hagree'.1)
      have hI : I' = I := by
        cases I
        cases I'
        cases hname
        cases hmap
        cases hcontainer
        rfl
      rw [hI, ih Is' htail hagree.2 hagree'.2]

/-- **A statement with nothing to do** succeeds and changes nothing, where all indexes stay
consistent. -/
theorem KeepsSizes.repeats (ht : t.KeepsSizes as S)
    (hS : ∀ q, Picks clause t q → S q) (hagree : t.IndexesAgree)
    (hsets : ∀ r ∈ roundsAt as clause rounds t, ∃ c f, Sets t.schema r.1 c f)
    (hapart : NewKeys false t (roundsAt as clause rounds t))
    (h : Settled as clause rounds t) : Repeats as clause rounds t := by
  have hall : clause = none → ∀ q, S q := fun hnone q => hS q (by rw [hnone]; trivial)
  have hrs : ∀ r ∈ roundsAt as clause rounds t, r.1 ∈ as ∧ S r.2 :=
    fun r hr => (mem_roundsAt hr).imp_right (hS r.2)
  obtain ⟨t', hrounds⟩ := ht.exists_forEach hagree hrs (fun r hr => by
    obtain ⟨row, hrow, -⟩ := h.rows r hr
    exact ⟨Option.isSome_iff_exists.mpr ⟨row, hrow⟩, hsets r hr⟩) h.newKeys hapart
  obtain ⟨hran, -⟩ := ht.ran hrs hrounds
  obtain ⟨hagree', -⟩ := ht.agree_of_forEach hagree hrs hapart hrounds
  have hlive : t'.heap.live = t.heap.live := by
    funext q
    rw [hran.live]
    cases hq : t.heap.live q with
    | none => rfl
    | some row =>
      rw [Option.map_some, applyAll_roundsAt]
      by_cases hrid : q ∈ (rowsOf clause rounds t).getD []
      · rw [if_pos hrid]
        cases as with
        | nil => rfl
        | cons a as =>
          obtain ⟨row', hrow', happly⟩ := h.rows (a, q)
            (mem_roundsOf.mpr ⟨List.mem_cons_self, hrid⟩)
          cases hq.symm.trans hrow'
          rw [happly]
      · rw [if_neg hrid]
  exact ⟨t', (ht.updateWhere_eq_true hall).mpr ⟨h.starts, hrounds⟩, hlive,
    indexes_eq_of_agree hagree hagree' hlive hran.keyColumns⟩

/-! ## What the first execution leaves -/

/-- The entries of the rows of a heap: under a key there is the row that has it. -/
def entriesOf (h : TableHeap) (key : List Field → Option (List UInt8)) : Entries :=
  fun k => (h.rows.find? (fun e => key e.2 = some k)).map Prod.fst

/-- An index that agrees with the heap has these entries. -/
theorem eq_entriesOf {ids : PageIds} {h : TableHeap} (hwf : h.WellFormed ids)
    {key : List Field → Option (List UInt8)} {c : Entries}
    (hagree : KeyIndex.Agrees key h.live c) : c = entriesOf h key := by
  funext k
  rw [entriesOf]
  cases hfind : h.rows.find? (fun e => key e.2 = some k) with
  | none =>
    cases hc : c k with
    | none => rfl
    | some q =>
      obtain ⟨row, hrow, hkey⟩ := hagree.2 k q hc
      have hno := List.find?_eq_none.mp hfind _ ((hwf.lists_rows.2 q row).mpr hrow)
      exact absurd (decide_eq_true hkey) hno
  | some e =>
    have hrow := (hwf.lists_rows.2 e.1 e.2).mp (List.mem_of_find?_eq_some hfind)
    have hkey : key e.2 = some k :=
      of_decide_eq_true (List.find?_some (p := fun e : _ × _ => decide (key e.2 = some k)) hfind)
    obtain ⟨k', hk', hentry⟩ := hagree.1 e.1 e.2 hrow
    cases hkey.symm.trans hk'
    exact hentry

/-- **The table after some rounds**, in closed form: the rows have their assignments, in their
places, and the indexes have the entries of the rows. -/
def afterRounds (t : TableInfo) (rs : List (Assignment × RowId)) : TableInfo :=
  { t with
    heap := t.heapAfter rs
    indexes := t.indexes.map
      (fun I => { I with container := entriesOf (t.heapAfter rs) I.key }) }

/-- Rounds lead there, if they keep the indexes consistent. -/
theorem Ran.eq_afterRounds (h : Ran rs t t') (hwf : t'.heap.WellFormed t'.ids)
    (hagree : t'.IndexesAgree) : t' = t.afterRounds rs := by
  have hindexes : t'.indexes = t.indexes.map
      (fun I => { I with container := entriesOf (t.heapAfter rs) I.key }) := by
    have hentries : ∀ I ∈ t'.indexes, I.container = entriesOf (t.heapAfter rs) I.key :=
      fun I hI => h.heap ▸ eq_entriesOf hwf (hagree I hI)
    have hcols := h.keyColumns
    unfold TableInfo.keyColumns at hcols
    generalize t.indexes = Is, t'.indexes = Is' at hcols hentries
    induction Is generalizing Is' with
    | nil => exact List.map_eq_nil_iff.mp hcols
    | cons I Is ih =>
      cases Is' with
      | nil => cases hcols
      | cons I' Is' =>
        rw [List.map_cons, List.map_cons] at hcols
        obtain ⟨hhead, htail⟩ := List.cons.inj hcols
        obtain ⟨hname, hmap⟩ := Prod.mk.inj hhead
        rw [List.forall_mem_cons] at hentries
        rw [List.map_cons, ih Is' htail hentries.2]
        refine congrArg (fun J => J :: _) ?_
        obtain ⟨name', keyMap', container'⟩ := I'
        obtain rfl : name' = I.name := hname
        obtain rfl : keyMap' = I.keyMap := hmap
        exact congrArg (IndexInfo.mk I.name I.keyMap) hentries.1
  obtain ⟨schema', ids', heap', indexes'⟩ := t'
  obtain rfl : schema' = t.schema := h.schema
  obtain rfl : ids' = t.ids := h.ids
  obtain rfl : heap' = t.heapAfter rs := h.heap
  exact congrArg (TableInfo.mk t.schema t.ids (t.heapAfter rs)) hindexes

/-- The table that a statement leaves, if it succeeds and moves no row. -/
def updated (as : List Assignment) (clause : Option (TableInfo → Option (List RowId)))
    (rounds : ℕ) (t : TableInfo) : TableInfo :=
  t.afterRounds (roundsAt as clause rounds t)

/-- **A statement that can be made twice.** Neither time a row gets the key of another one in
an index that is not looked into, and in the table that the assignments make there is nothing
left to be done. -/
structure Repeatable (as : List Assignment)
    (clause : Option (TableInfo → Option (List RowId))) (rounds : ℕ) (t : TableInfo) : Prop where
  apart : NewKeys false t (roundsAt as clause rounds t)
  apartAgain : NewKeys false (updated as clause rounds t)
    (roundsAt as clause rounds (updated as clause rounds t))
  settled : Settled as clause rounds (updated as clause rounds t)

/-- **An update made twice.** Where rows keep their size and the statement has succeeded, the
same statement again succeeds and changes nothing if the table before it is `Repeatable`. Where
no row gets the key of another one this is also necessary: then the same statement again
succeeds and changes nothing exactly if there is nothing left to be done. -/
theorem repeats_iff (ht : t.Consistent)
    (hsizes : t.KeepsSizes as
      (fun q => Picks clause t q ∨ Picks clause (updated as clause rounds t) q))
    (hfirst : t.updateWhere as clause rounds = some (t', true)) :
    (Repeatable as clause rounds t → Repeats as clause rounds t') ∧
      (NewKeys false t (roundsAt as clause rounds t) →
        NewKeys false (updated as clause rounds t)
          (roundsAt as clause rounds (updated as clause rounds t)) →
        Repeats as clause rounds t' → Settled as clause rounds (updated as clause rounds t)) := by
  have hall : clause = none → ∀ q, Picks clause t q ∨ Picks clause (updated as clause rounds t) q :=
    fun hnone q => .inl (by rw [hnone]; trivial)
  have hrs : ∀ r ∈ roundsAt as clause rounds t, r.1 ∈ as ∧
      (Picks clause t r.2 ∨ Picks clause (updated as clause rounds t) r.2) :=
    fun r hr => (mem_roundsAt hr).imp_right .inl
  obtain ⟨-, hrounds⟩ := (hsizes.updateWhere_eq_true hall).mp hfirst
  obtain ⟨hran, hsizes'⟩ := hsizes.ran hrs hrounds
  -- what the first execution leaves is the closed form
  have hleaves : NewKeys false t (roundsAt as clause rounds t) →
      t'.IndexesAgree ∧ t' = updated as clause rounds t := by
    intro hapart
    obtain ⟨hagree, -⟩ := hsizes.agree_of_forEach ht.agree hrs hapart hrounds
    exact ⟨hagree, hran.eq_afterRounds hsizes'.wellFormed hagree⟩
  refine ⟨fun h => ?_, fun hapart hagain hrepeats => ?_⟩
  · obtain ⟨hagree, heq⟩ := hleaves h.apart
    have hsettled := h.settled
    have hagain := h.apartAgain
    rw [← heq] at hsizes' hsettled hagain
    refine hsizes'.repeats (fun q => .inr) hagree (fun r hr => ?_) hagain hsettled
    -- a round of the first time shows that the assignment sets a field
    rw [hran.schema]
    cases hrids : (rowsOf clause rounds t).getD [] with
    | nil =>
      have hnone : roundsAt as clause rounds t = [] := by
        rw [roundsAt, hrids, roundsOf]
        exact List.flatMap_eq_nil_iff.mpr (fun _ _ => rfl)
      rw [hnone] at hrounds
      cases hrounds
      rw [hnone] at hr
      cases hr
    | cons rid rids =>
      refine (hran.rows (r.1, rid) (mem_roundsOf.mpr ⟨(mem_roundsAt hr).1, ?_⟩)).2
      rw [hrids]
      exact List.mem_cons_self
  · obtain ⟨hagree, heq⟩ := hleaves hapart
    rw [← heq] at hsizes' hagain ⊢
    exact hsizes'.settled_of_repeats (fun q => .inr) hagree hagain hrepeats

/-- What is to be shown of new keys, on the rows of the heap. -/
theorem keyFree_of_rows {ids : PageIds} {s : Schema} {Is : List IndexInfo} {start : Bool}
    {h : TableHeap} (hwf : h.WellFormed ids)
    (hrows : ∀ I ∈ Is, I.startsWith s a.column = start → ∀ e ∈ h.rows, e.1 = rid →
      ∀ e' ∈ h.rows, (start = false → e'.1 ≠ rid) → I.key e'.2 ≠ I.key (a.apply s e.2)) :
    KeyFree s Is start a rid h :=
  fun I hI hstart old hold q row hrow hq => hrows I hI hstart (rid, old)
    ((hwf.lists_rows.2 rid old).mpr hold) rfl (q, row) ((hwf.lists_rows.2 q row).mpr hrow) hq

/-- The table `t(a int, b int, primary key(a, b))` with the rows `(1, 1)` and `(2, 2)`. -/
def pairsAB : TableInfo :=
  ((runAB [insertAB 1 1, insertAB 2 2]).map Prod.snd).getD ⟨⟨[]⟩, pagesFrom2, ⟨[]⟩, []⟩

theorem consistent_pairsAB : pairsAB.Consistent := by
  obtain ⟨t₀, hrun⟩ : ∃ t₀, runAB [insertAB 1 1, insertAB 2 2] = some (t₀, pairsAB) := ⟨_, rfl⟩
  exact consistent_of_runAB
    (List.forall_mem_cons.mpr ⟨⟨_, rfl⟩, List.forall_mem_singleton.mpr ⟨_, rfl⟩⟩) hrun

theorem rows_pairsAB : pairsAB.heap.rows =
    [(⟨2, 0⟩, [.integer 1, .integer 1]), (⟨2, 1⟩, [.integer 2, .integer 2])] := rfl

/-- The rows of `pairsAB` are pairs of integers. -/
theorem pair_of_live {q : RowId} {row : List Field} (h : pairsAB.heap.live q = some row) :
    ∃ i j, row = [.integer i, .integer j] := by
  have hmem := (consistent_pairsAB.wellFormed.lists_rows.2 q row).mpr h
  rw [rows_pairsAB] at hmem
  rcases List.mem_pair.mp hmem with heq | heq
  · exact ⟨1, 1, (Prod.mk.inj heq).2⟩
  · exact ⟨2, 2, (Prod.mk.inj heq).2⟩

theorem keepsSizes_pairsAB : pairsAB.KeepsSizes [setB 5] S := by
  refine ⟨consistent_pairsAB.wellFormed, fun q row h => ?_, fun q row h => ?_, ?_⟩
  · obtain ⟨i, j, rfl⟩ := pair_of_live h
    exact ⟨.cons ⟨rfl, nofun, nofun⟩ (.cons ⟨rfl, nofun, nofun⟩ .nil),
      List.forall_mem_cons.mpr ⟨rfl, (List.forall_mem_singleton).mpr rfl⟩⟩
  · obtain ⟨i, j, rfl⟩ := pair_of_live h
    exact (by decide : 8 ≠ 0)
  · intro a ha c f hsets q _ row g h hg
    rw [List.mem_singleton.mp ha] at hsets
    have hfive : Sets pairsAB.schema (setB 5) 1 (.integer 5) := ⟨rfl, _, rfl, rfl⟩
    obtain ⟨rfl, rfl⟩ := hfive.unique hsets
    obtain ⟨i, j, rfl⟩ := pair_of_live h
    cases hg
    rfl

/-- The rounds of `update t set b = 5`. -/
def roundsAB : List (Assignment × RowId) := [(setB 5, ⟨2, 0⟩), (setB 5, ⟨2, 1⟩)]

/-- The keys `(1, 5)` and `(2, 5)` are nobody else's, and no index starts with `b`. -/
theorem newKeys_pairsAB (start : Bool) : NewKeys start pairsAB roundsAB := by
  have hwf := consistent_pairsAB.wellFormed
  have hfirst : KeyFree pairsAB.schema pairsAB.indexes start (setB 5) ⟨2, 0⟩
      (pairsAB.heapAfter []) :=
    keyFree_of_rows hwf.mapRows (by cases start <;> decide +kernel)
  have hsecond : KeyFree pairsAB.schema pairsAB.indexes start (setB 5) ⟨2, 1⟩
      (pairsAB.heapAfter [(setB 5, ⟨2, 0⟩)]) :=
    keyFree_of_rows hwf.mapRows (by cases start <;> decide +kernel)
  exact (newKeys_nil.concat hfirst).concat hsecond

/-- Neither are they in the table that is left. -/
theorem newKeys_updatedAB (start : Bool) :
    NewKeys start (updated [setB 5] none 3 pairsAB) roundsAB := by
  have hwf : (updated [setB 5] none 3 pairsAB).heap.WellFormed pagesFrom2 :=
    consistent_pairsAB.wellFormed.mapRows
  have hfirst : KeyFree pairsAB.schema (updated [setB 5] none 3 pairsAB).indexes start (setB 5)
      ⟨2, 0⟩ ((updated [setB 5] none 3 pairsAB).heapAfter []) :=
    keyFree_of_rows hwf.mapRows (by cases start <;> decide +kernel)
  have hsecond : KeyFree pairsAB.schema (updated [setB 5] none 3 pairsAB).indexes start (setB 5)
      ⟨2, 1⟩ ((updated [setB 5] none 3 pairsAB).heapAfter [(setB 5, ⟨2, 0⟩)]) :=
    keyFree_of_rows hwf.mapRows (by cases start <;> decide +kernel)
  exact (newKeys_nil.concat hfirst).concat hsecond

/-- With the primary key `(a, b)` and the rows `(1, 1)` and `(2, 2)`, `update t set b = 5` can be
made twice. -/
theorem repeats_iff_primaryKey : ∃ t', pairsAB.updateWhere [setB 5] none 3 = some (t', true) ∧
    t'.heap.rows.map Prod.snd = [[.integer 1, .integer 5], [.integer 2, .integer 5]] ∧
    Repeats [setB 5] none 3 t' := by
  obtain ⟨t', hfirst, hrows⟩ : ∃ t', pairsAB.updateWhere [setB 5] none 3 = some (t', true) ∧
      t'.heap.rows.map Prod.snd = [[.integer 1, .integer 5], [.integer 2, .integer 5]] :=
    ⟨_, rfl, rfl⟩
  have hsettled : Settled [setB 5] none 3 (updated [setB 5] none 3 pairsAB) := by
    refine ⟨.inr rfl, ?_, newKeys_updatedAB true⟩
    exact List.forall_mem_cons.mpr
      ⟨⟨_, rfl, rfl⟩, List.forall_mem_singleton.mpr ⟨_, rfl, rfl⟩⟩
  refine ⟨t', hfirst, hrows, (repeats_iff consistent_pairsAB keepsSizes_pairsAB hfirst).1 ?_⟩
  exact ⟨newKeys_pairsAB false, newKeys_updatedAB false, hsettled⟩

/-! ## A row that conflicts with itself -/

/-- A table with one column `a int` and one row. -/
def oneRow (value : Int32) (indexes : List IndexInfo) : TableInfo :=
  ⟨⟨[⟨[97], .kTypeInt, 4, 0, false, true, TypeId.int_supported⟩]⟩, pagesFrom2,
    ⟨[⟨2, [.live [.integer value]]⟩]⟩, indexes⟩

/-- The index that a unique column `a` has, with the row `(1)`. -/
def indexA : IndexInfo :=
  ⟨[116, 95, 97], [0],
    Function.update (fun _ => none) ((genericKey [.integer 1]).getD []) (some ⟨2, 0⟩)⟩

variable {value : Int32} {Is : List IndexInfo}

theorem live_oneRow :
    (oneRow value Is).heap.live =
      Function.update (fun _ => none) (⟨2, 0⟩ : RowId) (some [.integer value]) := by
  funext q
  by_cases hq : q = (⟨2, 0⟩ : RowId)
  · rw [hq, Function.update_self]
    rfl
  · rw [Function.update_of_ne hq]
    cases hlive : (oneRow value Is).heap.live q with
    | none => rfl
    | some row =>
      obtain ⟨p, hp, hs⟩ := TableHeap.exists_fetchPage hlive
      have hpage : p = ⟨2, [.live [.integer value]]⟩ :=
        List.mem_singleton.mp (List.mem_of_find?_eq_some hp)
      have hid : q.pageId = 2 := by rw [← TableHeap.pageId_of_fetchPage hp, hpage]
      rw [hpage] at hs
      have hslot : q.slotNum = 0 :=
        Nat.lt_one_iff.mp (List.getElem?_eq_some_iff.mp hs).1
      cases q
      cases hid
      cases hslot
      exact absurd rfl hq

theorem wellFormed_oneRow : (oneRow value Is).heap.WellFormed pagesFrom2 := by
  intro i p hp
  cases i with
  | zero =>
    cases hp
    rfl
  | succ i => cases hp

/-- `a = 2` keeps the size of the row. -/
theorem keepsSizes_oneRow : (oneRow value Is).KeepsSizes [setA 2] S := by
  have hrow : ∀ q row, (oneRow value Is).heap.live q = some row → row = [.integer value] := by
    intro q row h
    rw [live_oneRow] at h
    by_cases hq : q = (⟨2, 0⟩ : RowId)
    · rw [hq, Function.update_self] at h
      exact (Option.some.inj h).symm
    · rw [Function.update_of_ne hq] at h
      cases h
  refine ⟨wellFormed_oneRow, fun q row h => ?_, fun q row h => ?_, ?_⟩
  · rw [hrow q row h]
    exact ⟨.cons ⟨rfl, nofun, nofun⟩ .nil, (List.forall_mem_singleton).mpr rfl⟩
  · rw [hrow q row h]
    exact (by decide : 4 ≠ 0)
  · intro a ha c f hsets q _ row g h hg
    rw [List.mem_singleton.mp ha] at hsets
    have htwo : Sets (oneRow value Is).schema (setA 2) 0 (.integer 2) := ⟨rfl, _, rfl, rfl⟩
    obtain ⟨rfl, rfl⟩ := htwo.unique hsets
    rw [hrow q row h] at hg
    cases hg
    rfl

/-- The index of the unique column agrees with the row. -/
theorem consistent_oneRow : (oneRow 1 [indexA]).Consistent := by
  refine ⟨wellFormed_oneRow, List.forall_mem_singleton.mpr ?_⟩
  rw [live_oneRow]
  exact (KeyIndex.agrees_empty (fun _ => rfl) (fun _ => rfl)).insert rfl rfl rfl

/-- **The row that has the value already** is a duplicate of itself: `update t set a = 2`
fails when it is made again. -/
theorem not_repeats : ¬ ∀ (t t' : TableInfo) (as : List Assignment)
    (clause : Option (TableInfo → Option (List RowId))) (rounds : ℕ), t.Consistent →
    t.KeepsSizes as (fun q => Picks clause t q ∨ Picks clause t' q) →
    t.updateWhere as clause rounds = some (t', true) → Repeats as clause rounds t' := by
  intro hall
  have hfails : ((oneRow 1 [indexA]).updateWhere [setA 2] none 3).map
      (fun r => (r.2, (r.1.updateWhere [setA 2] none 3).map Prod.snd)) = some (true, some false) :=
    rfl
  obtain ⟨⟨t', b⟩, hfirst, hout⟩ := Option.map_eq_some_iff.mp hfails
  obtain ⟨rfl, hsecond⟩ := Prod.mk.inj hout
  obtain ⟨t'', hagain, -⟩ := hall _ t' _ _ _ consistent_oneRow keepsSizes_oneRow hfirst
  rw [hagain] at hsecond
  cases hsecond

end TableInfo

end MiniSql