import MiniSql.HeapUpdate
import MiniSql.StatementEffects

/-!
# Tables on their pages

`ExecuteInsert` and `ExecuteUpdate` of `executor/execute_engine.cpp` on the bytes of a table:
an old row is what `GetTuple` reads from its page, and not what was written there.

`ExecuteInsert` checks the values against the columns, and `ExecuteUpdate` does not check
their length. So the rows of a table obey its schema after statements of which no update
assigns a string that is longer than its column, and no insertion has a `NULL`, which takes
no bytes and is not read back (`PagedTable.rowsObey_of_keepsLengths`).
-/

namespace MiniSql

/-- A table: the heap, with the schema, and the indexes. -/
structure PagedTable where
  /-- `table_heap_` -/
  heap : PagedHeap
  /-- What `GetTableIndexes` gives. -/
  indexes : List IndexInfo

/-- The row that an assignment makes of a row of the given columns. -/
def Schema.newRow (s : Schema) (a : Assignment) (old : List Field) : Option (Option (List Field)) :=
  match s.getColumnIndex a.column with
  | none => none
  | some c =>
    match (s.columns[c]?).map (fun col => col.updateField a.value) with
    | none | some none => none
    | some (some none) => some none
    | some (some (some f)) => if c < old.length then some (some (old.set c f)) else none

namespace PagedTable

section Statements

-- the id that `NewPage` gives in a state of the pages
variable (newPage : PageStore → PageId)

/-- `ExecuteInsert`. -/
def executeInsert (t : PagedTable) (values : List Literal) : Option (PagedTable × Bool) :=
  match insertFields t.heap.schema.columns values with
  | none => none
  | some none => some (t, false)
  | some (some row) =>
    match IndexInfo.duplicate row t.indexes with
    | none => none
    | some true => some (t, false)
    | some false =>
      match t.heap.insertTuple row (newPage t.heap.bufferPool) with
      | none => none
      | some (heap, none) => some (⟨heap, t.indexes⟩, false)
      | some (heap, some rid) =>
        (IndexInfo.insertEntries row rid t.indexes).map (fun r => (⟨heap, r.1⟩, r.2))

/-- One round of `ExecuteUpdate`. A row id without a live row gives a row without fields. -/
def updateRow (a : Assignment) (t : PagedTable) (rid : RowId) : Option (PagedTable × Bool) :=
  match t.heap.getTuple rid with
  | none => none
  | some got =>
    let old := got.getD []
    match t.heap.schema.newRow a old with
    | none => none
    | some none => some (t, false)
    | some (some new) =>
      match IndexInfo.duplicate new
          (t.indexes.filter (fun I => I.startsWith t.heap.schema a.column)) with
      | none => none
      | some true => some (t, false)
      | some false =>
        match t.indexes.mapM (IndexInfo.rewriteRow old new rid) with
        | none => none
        | some indexes =>
          (t.heap.updateTuple new rid (newPage t.heap.bufferPool)).map
            (fun r => (⟨r.1, indexes⟩, true))

/-- The end of a scan is no position. -/
def position (it : TableIterator) : Option TableIterator :=
  if it.rid = PagedHeap.endOf.rid then none else some it

/-- The next position of a scan. -/
def nextRow (t : PagedTable) (it : TableIterator) : Option TableIterator :=
  (t.heap.next it).bind position

/-- One round of a scan: after it `operator++` goes on. -/
def scanRow (a : Assignment) (t : PagedTable) (it : TableIterator) : Option (PagedTable × Bool) :=
  match updateRow newPage a t it.rid with
  | none => none
  | some (t', false) => some (t', false)
  | some (t', true) => if (t'.heap.next it).isSome then some (t', true) else none

/-- The rounds for one assignment, over the selected rows or over all. -/
def updateRows (selected : Option (List RowId)) (rounds : ℕ) (t : PagedTable) (a : Assignment) :
    Option (PagedTable × Bool) :=
  match selected with
  | some rids => Loops.forEach (updateRow newPage a) t rids
  | none =>
    match t.heap.begin with
    | none => none
    | some it => Loops.scan nextRow (scanRow newPage a) rounds t (position it)

/-- `ExecuteUpdate`: one assignment after the other. -/
def executeUpdate (t : PagedTable) (assignments : List Assignment)
    (selected : Option (List RowId)) (rounds : ℕ) : Option (PagedTable × Bool) :=
  Loops.forEach (updateRows newPage selected rounds) t assignments

/-- The statements that write rows. -/
inductive WriteStatement
  | insert (values : List Literal)
  | update (assignments : List Assignment) (selected : Option (List RowId)) (rounds : ℕ)

/-- One statement. -/
def step (t : PagedTable) : WriteStatement → Option (PagedTable × Bool)
  | .insert values => executeInsert newPage t values
  | .update assignments selected rounds => executeUpdate newPage t assignments selected rounds

end Statements

end PagedTable

/-! ## Rows that obey the schema -/

/-- A field that obeys its column. -/
def Column.Keeps (c : Column) (f : Field) : Prop :=
  f.typeId = c.type ∧ (f.isNull = true → c.nullable = true ∧ c.unique = false) ∧
    ∀ data, f = .chars data → data.length ≤ c.len

/-- A row with one field for each column, which obeys it. -/
def Schema.Obeyed (s : Schema) (row : List Field) : Prop := List.Forall₂ Column.Keeps s.columns row

/-- **The rows obey the schema**: every live tuple is read as a row that does. -/
def PagedHeap.RowsObey (h : PagedHeap) : Prop :=
  ∀ rid, (h.tupleAt rid).isLive = true →
    ∃ row, h.getTuple rid = some (some row) ∧ h.schema.Obeyed row

/-- The string that an assignment puts into a column is not longer than the column. -/
def Assignment.KeepsLength (s : Schema) (a : Assignment) : Prop :=
  ∀ c data, TableInfo.Sets s a c (.chars data) → ∀ col, s.columns[c]? = some col →
    data.length ≤ col.len

/-- Every round of an update assigns a string that is not longer than the column, and an
insertion that passes the checks has no `NULL`. -/
def PagedTable.WriteStatement.KeepsLengths (newPage : PageStore → PageId) (t : PagedTable) :
    PagedTable.WriteStatement → Prop
  | .insert values =>
    ∀ row, insertFields t.heap.schema.columns values = some (some row) →
      ∀ f ∈ row, f.isNull = false
  | .update assignments selected rounds =>
    Loops.ForEach.Meets (PagedTable.updateRows newPage selected rounds)
      (fun t a => match selected with
        | some rids => Loops.ForEach.Meets (PagedTable.updateRow newPage a)
            (fun t _ => a.KeepsLength t.heap.schema) t rids
        | none => ∀ it, t.heap.begin = some it → Loops.Scan.Meets PagedTable.nextRow
            (PagedTable.scanRow newPage a) (fun t _ => a.KeepsLength t.heap.schema) rounds t
            (PagedTable.position it))
      t assignments

section Checks

variable {s : Schema} {c : Column} {a : Assignment} {old new row : List Field} {f : Field}

/-- What passes the checks of an insertion obeys the column, and a `Field` takes it. -/
theorem Column.keeps_insertField {v : Literal} (h : c.insertField v = some (some f)) :
    c.Keeps f ∧ c.Admits f := by
  cases v with
  | null =>
    unfold insertField at h
    by_cases hnull : (c.nullable && !c.unique) = true
    · rw [if_pos hnull] at h
      cases h
      obtain ⟨hnullable, hunique⟩ := Bool.and_eq_true_iff.mp hnull
      exact ⟨⟨rfl, fun _ => ⟨hnullable, by rwa [Bool.not_eq_true'] at hunique⟩, nofun⟩,
        rfl, fun _ => hnullable, nofun⟩
    · rw [if_neg hnull] at h
      cases h
  | number i x =>
    cases htype : c.type with
    | kTypeInt =>
      simp only [insertField, htype] at h
      cases h
      exact ⟨⟨htype.symm, nofun, nofun⟩, htype.symm, nofun, nofun⟩
    | kTypeFloat =>
      simp only [insertField, htype] at h
      cases h
      exact ⟨⟨htype.symm, nofun, nofun⟩, htype.symm, nofun, nofun⟩
    | kTypeInvalid | kTypeChar =>
      simp only [insertField, htype] at h
      cases h
  | string data =>
    cases htype : c.type with
    | kTypeChar =>
      simp only [insertField, htype] at h
      by_cases hlong : c.len < data.length
      · rw [if_pos hlong] at h
        cases h
      · rw [if_neg hlong] at h
        by_cases hfits : data.length < varcharMaxLen
        · rw [if_pos hfits] at h
          cases h
          exact ⟨⟨htype.symm, nofun, fun _ hdata => Field.chars.inj hdata ▸ not_lt.mp hlong⟩,
            htype.symm, nofun, fun _ hdata => Field.chars.inj hdata ▸ hfits⟩
        · rw [if_neg hfits] at h
          cases h
    | kTypeInvalid | kTypeInt | kTypeFloat =>
      simp only [insertField, htype] at h
      cases h

/-- **What passes the checks of an insertion** obeys the schema. -/
theorem obeyed_of_insertFields {cs : List Column} {vs : List Literal}
    (h : insertFields cs vs = some (some row)) :
    List.Forall₂ Column.Keeps cs row ∧ List.Forall₂ Column.Admits cs row := by
  induction cs generalizing vs row with
  | nil =>
    cases vs with
    | nil =>
      cases h
      exact ⟨.nil, .nil⟩
    | cons v vs => cases h
  | cons c cs ih =>
    cases vs with
    | nil => cases h
    | cons v vs =>
      unfold insertFields at h
      cases hf : c.insertField v with
      | none =>
        rw [hf] at h
        cases h
      | some r =>
        rw [hf] at h
        cases r with
        | none => cases h
        | some f =>
          obtain ⟨fs, hfs, hrow⟩ := Option.map_eq_some_iff.mp h
          obtain ⟨fs', rfl, hcons⟩ := Option.map_eq_some_iff.mp hrow
          cases hcons
          obtain ⟨hkeeps, hadmits⟩ := Column.keeps_insertField hf
          exact ⟨.cons hkeeps (ih hfs).1, .cons hadmits (ih hfs).2⟩

/-- An assigned field is of the type of its column and no `NULL`. -/
theorem Column.updateField_eq_some {v : Literal} (h : c.updateField v = some (some f)) :
    f.typeId = c.type ∧ f.isNull = false ∧
      ∀ data, f = .chars data → data.length < varcharMaxLen := by
  cases v with
  | null => cases h
  | number i x =>
    cases htype : c.type with
    | kTypeInt | kTypeFloat =>
      simp only [updateField, htype] at h
      cases h
      exact ⟨rfl, rfl, nofun⟩
    | kTypeInvalid | kTypeChar =>
      simp only [updateField, htype] at h
      cases h
  | string data =>
    cases htype : c.type with
    | kTypeChar =>
      simp only [updateField, htype] at h
      by_cases hfits : data.length < varcharMaxLen
      · rw [if_pos hfits] at h
        cases h
        exact ⟨rfl, rfl, fun _ hdata => Field.chars.inj hdata ▸ hfits⟩
      · rw [if_neg hfits] at h
        cases h
    | kTypeInvalid | kTypeInt | kTypeFloat =>
      simp only [updateField, htype] at h
      cases h

/-- One field of a row is replaced. -/
theorem forall₂_set {R : Column → Field → Prop} {cs : List Column} {i : ℕ}
    (h : List.Forall₂ R cs row) (hf : ∀ col, cs[i]? = some col → R col f) :
    List.Forall₂ R cs (row.set i f) := by
  induction h generalizing i with
  | nil => exact .nil
  | @cons c g cs gs hcg hrest ih =>
    cases i with
    | zero => exact .cons (hf c rfl) hrest
    | succ i => exact .cons hcg (ih hf)

/-- The new row is the old one with one field replaced. -/
theorem Schema.newRow_eq_some : s.newRow a old = some (some new) ↔
    ∃ c f, TableInfo.Sets s a c f ∧ c < old.length ∧ new = old.set c f :=
  TableInfo.newRow_eq_some (t := ⟨s, pagesFrom2, ⟨[]⟩, []⟩)

/-- A row that obeys the schema and that `Field` takes, without `NULL`. -/
def GoodRow (s : Schema) (row : List Field) : Prop := PagedHeap.RowOf s row ∧ s.Obeyed row

/-- **An assignment** keeps a row one of the schema without `NULL`. -/
theorem rowOf_newRow (h : PagedHeap.RowOf s old) (hnew : s.newRow a old = some (some new)) :
    PagedHeap.RowOf s new := by
  obtain ⟨c, f, ⟨-, col, hcol, hfield⟩, -, rfl⟩ := Schema.newRow_eq_some.mp hnew
  obtain ⟨htype, hnull, hfits⟩ := Column.updateField_eq_some hfield
  refine ⟨forall₂_set h.1 (fun col' hcol' => ?_), fun g hg => ?_⟩
  · obtain rfl : col = col' := Option.some.inj (hcol.symm.trans hcol')
    refine ⟨htype, fun hc => ?_, hfits⟩
    rw [hnull] at hc
    cases hc
  · rcases List.mem_or_eq_of_mem_set hg with hg | rfl
    · exact h.2 g hg
    · exact hnull

/-- **An assignment that keeps the length** keeps the row a good one. -/
theorem GoodRow.newRow (h : GoodRow s old) (hkeeps : a.KeepsLength s)
    (hnew : s.newRow a old = some (some new)) : GoodRow s new := by
  refine ⟨rowOf_newRow h.1 hnew, ?_⟩
  obtain ⟨c, f, hsets, -, rfl⟩ := Schema.newRow_eq_some.mp hnew
  obtain ⟨-, col, hcol, hfield⟩ := id hsets
  obtain ⟨htype, hnull, -⟩ := Column.updateField_eq_some hfield
  refine forall₂_set h.2 (fun col' hcol' => ?_)
  obtain rfl : col = col' := Option.some.inj (hcol.symm.trans hcol')
  refine ⟨htype, fun hc => ?_, fun data hdata => hkeeps c data (hdata ▸ hsets) col hcol⟩
  rw [hnull] at hc
  cases hc

end Checks

/-! ## The rows of the pages -/

namespace PagedTable

open PagedHeap

variable {newPage : PageStore → PageId} {t t' : PagedTable} {schema : Schema} {b : Bool}

/-- The bytes of a good row. -/
def GoodTuple (s : Schema) (tuple : Tuple) : Prop :=
  ∃ row, Tuple.ofFields row = some tuple ∧ GoodRow s row

theorem GoodRow.goodTuple {row : List Field} (h : GoodRow schema row) :
    ∀ tuple, Tuple.ofFields row = some tuple → GoodTuple schema tuple :=
  fun _ htuple => ⟨row, htuple, h⟩

/-- **The pages have good rows only.** -/
def Good (schema : Schema) (t : PagedTable) : Prop :=
  t.heap.schema = schema ∧ ∃ ids slots, Laid (GoodTuple schema) t.heap ids slots

/-- What is read is a good row. -/
theorem Good.of_getTuple (ht : t.Good schema) {rid : RowId} {row : List Field}
    (hget : t.heap.getTuple rid = some (some row)) : GoodRow schema row := by
  obtain ⟨rfl, ids, slots, hl⟩ := ht
  obtain ⟨hid, old, hslot, row', hbytes, hgood⟩ := hl.exists_live (hl.mem_liveTuples hget)
  rw [hl.getTuple_of_live hid hslot, readRow_bytes hgood.1 hbytes] at hget
  cases hget
  exact hgood

/-- **Good rows obey the schema.** -/
theorem Good.rowsObey (ht : t.Good schema) : t.heap.RowsObey := by
  obtain ⟨rfl, ids, slots, hl⟩ := ht
  intro rid hlive
  obtain ⟨hid, old, hslot, row, hbytes, hgood⟩ := hl.exists_live hlive
  refine ⟨row, ?_, hgood.2⟩
  rw [hl.getTuple_of_live hid hslot, readRow_bytes hgood.1 hbytes, Option.map_some]

/-- **An insertion** without `NULL`. -/
theorem Good.executeInsert (ht : t.Good schema) {values : List Literal}
    (hnull : ∀ row, insertFields t.heap.schema.columns values = some (some row) →
      ∀ f ∈ row, f.isNull = false)
    (h : executeInsert newPage t values = some (t', b)) : t'.Good schema := by
  unfold PagedTable.executeInsert at h
  cases hfields : insertFields t.heap.schema.columns values with
  | none =>
    rw [hfields] at h
    cases h
  | some r =>
    rw [hfields] at h
    cases r with
    | none =>
      cases h
      exact ht
    | some row =>
      obtain ⟨hkeeps, hadmits⟩ := obeyed_of_insertFields hfields
      have hgood : GoodRow t.heap.schema row := ⟨⟨hadmits, hnull row hfields⟩, hkeeps⟩
      obtain ⟨rfl, ids, slots, hl⟩ := ht
      dsimp only at h
      cases hdup : IndexInfo.duplicate row t.indexes with
      | none =>
        rw [hdup] at h
        cases h
      | some found =>
        rw [hdup] at h
        cases found with
        | true =>
          cases h
          exact ⟨rfl, ids, slots, hl⟩
        | false =>
          dsimp only at h
          cases hins : t.heap.insertTuple row (newPage t.heap.bufferPool) with
          | none =>
            rw [hins] at h
            cases h
          | some r =>
            obtain ⟨heap, rid⟩ := r
            have hlaid := hl.of_insertTuple (GoodRow.goodTuple hgood) hins
            rw [hins] at h
            cases rid with
            | none =>
              cases h
              exact hlaid
            | some rid =>
              obtain ⟨r, -, heq⟩ := Option.map_eq_some_iff.mp h
              cases heq
              exact hlaid

/-- **One round of an update** that keeps the length. -/
theorem Good.updateRow (ht : t.Good schema) {a : Assignment} {rid : RowId}
    (hkeeps : a.KeepsLength t.heap.schema) (h : updateRow newPage a t rid = some (t', b)) :
    t'.Good schema := by
  unfold PagedTable.updateRow at h
  cases hget : t.heap.getTuple rid with
  | none =>
    rw [hget] at h
    cases h
  | some got =>
    rw [hget] at h
    dsimp only at h
    cases hnew : t.heap.schema.newRow a (got.getD []) with
    | none =>
      rw [hnew] at h
      cases h
    | some r =>
      rw [hnew] at h
      cases r with
      | none =>
        cases h
        exact ht
      | some new =>
        dsimp only at h
        cases hdup : IndexInfo.duplicate new
            (t.indexes.filter (fun I => I.startsWith t.heap.schema a.column)) with
        | none =>
          rw [hdup] at h
          cases h
        | some found =>
          rw [hdup] at h
          cases found with
          | true =>
            cases h
            exact ht
          | false =>
            dsimp only at h
            cases hmap : t.indexes.mapM (IndexInfo.rewriteRow (got.getD []) new rid) with
            | none =>
              rw [hmap] at h
              cases h
            | some indexes =>
              rw [hmap] at h
              obtain ⟨⟨heap, b', r'⟩, hup, heq⟩ := Option.map_eq_some_iff.mp h
              cases heq
              -- a row without fields has no column to assign to
              cases got with
              | none =>
                obtain ⟨c, f, -, hlt, -⟩ := Schema.newRow_eq_some.mp hnew
                exact absurd hlt (Nat.not_lt_zero c)
              | some old =>
                have hold : GoodRow t.heap.schema old := ht.1.symm ▸ ht.of_getTuple hget
                have hgood := hold.newRow hkeeps hnew
                obtain ⟨rfl, ids, slots, hl⟩ := ht
                exact hl.of_updateTuple (GoodRow.goodTuple hgood) hup

/-- **One statement** keeps the rows good. -/
theorem Good.step (ht : t.Good schema) {st : WriteStatement} (hkeeps : st.KeepsLengths newPage t)
    (h : step newPage t st = some (t', b)) : t'.Good schema := by
  cases st with
  | insert values => exact ht.executeInsert hkeeps h
  | update assignments selected rounds =>
    refine Loops.forEach_invariant ?_ ht hkeeps h
    intro t a t' b ht hrounds h
    cases selected with
    | some rids =>
      exact Loops.forEach_invariant (fun _ _ _ _ ht hk h => ht.updateRow hk h) ht hrounds h
    | none =>
      unfold updateRows at h
      cases hbegin : t.heap.begin with
      | none =>
        simp only [hbegin] at h
        cases h
      | some it =>
        simp only [hbegin] at h
        refine Loops.scan_invariant (fun t it t' b ht hk h => ?_) ht (hrounds it hbegin) h
        unfold scanRow at h
        cases hup : PagedTable.updateRow newPage a t it.rid with
        | none =>
          rw [hup] at h
          cases h
        | some r =>
          obtain ⟨t₁, b₁⟩ := r
          have ht₁ := ht.updateRow hk hup
          rw [hup] at h
          cases b₁ with
          | false =>
            cases h
            exact ht₁
          | true =>
            by_cases hnext : (t₁.heap.next it).isSome = true
            · simp only [if_pos hnext] at h
              cases h
              exact ht₁
            · simp only [if_neg hnext] at h
              cases h

/-- **Stored rows obey their schema** in every state that insertions without `NULL` and
updates with strings not longer than the column lead to, whether they succeed or fail. -/
theorem rowsObey_of_keepsLengths {id : PageId} {h₀ : PagedHeap}
    (hcreate : PagedHeap.create schema id = some h₀) {indexes : List IndexInfo}
    (hrun : Machine.Reaches (step newPage) (fun t st => st.KeepsLengths newPage t)
      ⟨h₀, indexes⟩ t) :
    t.heap.RowsObey := by
  obtain ⟨hschema, hlaid⟩ := laid_create hcreate
  have hgood : t.Good schema := hrun.invariant (I := Good schema) ⟨hschema, _, _, hlaid⟩
    (fun _ _ _ _ ht hkeeps h => ht.step hkeeps h)
  exact hgood.rowsObey

/-! ## A string that is too long -/

/-- A table of one `CHAR(4)` column. -/
def charSchema : Schema := ⟨[⟨[97], .kTypeChar, 4, 0, true, false, TypeId.char_supported⟩]⟩

/-- `update t set a = data where …`, with the first row selected. -/
def setChars (data : StdString) : WriteStatement := .update [⟨[97], .string data⟩] (some [⟨0, 0⟩]) 0

/-- `insert into t values('ab')`. -/
def insertAb : WriteStatement := .insert [.string [97, 98]]

set_option synthInstance.maxSize 400 in
/-- `'ab'` is inserted, and becomes `'cd'` or a string of eight bytes. -/
theorem run_setChars :
    ((PagedHeap.create charSchema 0).bind (fun h₀ =>
      (step (fun _ => 1) ⟨h₀, []⟩ insertAb).bind (fun r =>
        (step (fun _ => 1) r.1 (setChars [99, 100])).bind (fun _ =>
          (step (fun _ => 1) r.1 (setChars (List.replicate 8 99))).map (fun v =>
            ([r.2, v.2, (v.1.heap.tupleAt ⟨0, 0⟩).isLive], v.1.heap.schema.columns.map Column.len,
            v.1.heap.getTuple ⟨0, 0⟩)))))) =
      some ([true, true, true], [4], some (some [.chars (List.replicate 8 99)])) := by
  decide +kernel

theorem keepsLength_short {data : StdString} (h : data.length ≤ 4) :
    Assignment.KeepsLength charSchema ⟨[97], .string data⟩ := by
  intro c data' hsets col hcol
  obtain ⟨hc, col', hcol', hfield⟩ := hsets
  cases (rfl : charSchema.getColumnIndex [97] = some 0).symm.trans hc
  cases hcol
  cases hcol'
  have hshort : data.length < varcharMaxLen := h.trans_lt (by decide)
  simp only [Column.updateField, if_pos hshort] at hfield
  cases hfield
  exact h

/-- The rows obey the schema after `'ab'` has become `'cd'`. -/
theorem rowsObey_of_keepsLengths_short : ∃ h₀ t os, PagedHeap.create charSchema 0 = some h₀ ∧
    Machine.run (step (fun _ => 1)) ⟨h₀, []⟩ [insertAb, setChars [99, 100]] = some (t, os) ∧
      t.heap.RowsObey := by
  obtain ⟨h₀, hcreate, hsteps⟩ := Option.bind_eq_some_iff.mp run_setChars
  obtain ⟨⟨t₁, b₁⟩, hinsert, hsteps⟩ := Option.bind_eq_some_iff.mp hsteps
  obtain ⟨⟨t, b⟩, hupdate, -⟩ := Option.bind_eq_some_iff.mp hsteps
  have hrun : Machine.run (step (fun _ => 1)) ⟨h₀, []⟩ [insertAb, setChars [99, 100]] =
      some (t, [b₁, b]) := Machine.run_cons hinsert (Machine.run_cons hupdate rfl)
  refine ⟨h₀, t, _, hcreate, hrun, ?_⟩
  obtain ⟨hschema, hlaid⟩ := laid_create hcreate
  have hnull : ∀ row, insertFields h₀.schema.columns [.string [97, 98]] = some (some row) →
      ∀ f ∈ row, f.isNull = false := by
    rw [hschema]
    intro row hrow
    cases hrow
    decide
  have hgood : Good charSchema ⟨h₀, []⟩ := ⟨hschema, _, _, hlaid⟩
  have hinsertKeeps : insertAb.KeepsLengths (fun _ => 1) ⟨h₀, []⟩ := hnull
  have ht₁ : t₁.Good charSchema := hgood.step hinsertKeeps hinsert
  have hkeeps : (setChars [99, 100]).KeepsLengths (fun _ => 1) t₁ := by
    have hround : Assignment.KeepsLength t₁.heap.schema ⟨[97], .string [99, 100]⟩ := by
      rw [ht₁.1]
      exact keepsLength_short (by decide)
    exact ⟨⟨hround, fun _ _ => trivial⟩, fun _ _ => trivial⟩
  exact rowsObey_of_keepsLengths hcreate
    (.next (.next .init hinsertKeeps hinsert) hkeeps hupdate)

/-- **`UPDATE` lets a string in that is longer than its column.** -/
theorem not_rowsObey : ¬ ∀ (newPage : PageStore → PageId) (schema : Schema) (id : PageId)
    (h₀ : PagedHeap) (indexes : List IndexInfo) (statements : List WriteStatement)
    (t : PagedTable) (os : List Bool), PagedHeap.create schema id = some h₀ →
    Machine.run (step newPage) ⟨h₀, indexes⟩ statements = some (t, os) → (∀ o ∈ os, o = true) →
    t.heap.RowsObey := by
  intro hall
  obtain ⟨h₀, hcreate, hsteps⟩ := Option.bind_eq_some_iff.mp run_setChars
  obtain ⟨⟨t₁, b₁⟩, hinsert, hsteps⟩ := Option.bind_eq_some_iff.mp hsteps
  obtain ⟨⟨t₂, b₂⟩, -, hsteps⟩ := Option.bind_eq_some_iff.mp hsteps
  obtain ⟨⟨t, b⟩, hupdate, hend⟩ := Option.map_eq_some_iff.mp hsteps
  obtain ⟨hanswers, hlens, hget⟩ := by simpa only [Prod.mk.injEq] using hend
  obtain ⟨rfl, rfl, hlive⟩ : b₁ = true ∧ b = true ∧ (t.heap.tupleAt ⟨0, 0⟩).isLive = true := by
    simpa only [List.cons.injEq, and_true] using hanswers
  have hrun : Machine.run (step (fun _ => 1)) ⟨h₀, []⟩
      [insertAb, setChars (List.replicate 8 99)] = some (t, [true, true]) :=
    Machine.run_cons hinsert (Machine.run_cons hupdate rfl)
  obtain ⟨row, hrow, hobeyed⟩ := hall _ _ _ h₀ _ _ t _ hcreate hrun (by decide) ⟨0, 0⟩ hlive
  rw [hget] at hrow
  cases hrow
  unfold Schema.Obeyed at hobeyed
  cases hcolumns : t.heap.schema.columns with
  | nil =>
    rw [hcolumns] at hlens
    cases hlens
  | cons c cs =>
    rw [hcolumns] at hlens hobeyed
    obtain ⟨hlen, -⟩ := List.cons.inj hlens
    cases hobeyed with
    | cons hkeeps _ =>
      have hle : 8 ≤ c.len := hkeeps.2.2 _ rfl
      rw [hlen] at hle
      exact absurd hle (by decide)

end PagedTable

end MiniSql
