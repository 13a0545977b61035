import MiniSql.PagedTable
import MiniSql.TypeChar

/-!
# What was inserted and what is selected

`ExecuteInsert`, and `ExecuteSelect` without `WHERE`, of `executor/execute_engine.cpp` on
the pages of a table without indexes. For every column of the output `ExecuteSelect` goes
over the whole table, and what it prints for a row is what `GetData` leaves in the static
buffer.

`GetData` keeps letters and digits only, and of these also those in the memory behind the
bytes of the field. So a string is printed as it was inserted exactly if it consists of
letters and digits and of none of them follows it there (`selectsInserted_iff_prints`).
-/

namespace MiniSql

open Bytes

/-- What `ExecuteSelect` finds in memory. -/
structure Surroundings where
  /-- The static buffer of `GetData`. -/
  buf : Mem
  /-- What `std::to_string` gives for the value of a field, with the zero behind it. -/
  toString : Field → Mem
  /-- The memory around the bytes of the field that is read for a column and a row. -/
  chars : ℕ → RowId → Mem

/-- `GetData`, of a field with its bytes in the given memory: what it leaves in the
buffer. The value of a `CHAR` field that is `NULL` is no address. -/
def Field.getData (toString : Field → Mem) (buf chars : Mem) : Field → Option Mem
  | .null .kTypeInvalid => none
  | .null .kTypeChar => none
  | .chars data => TypeChar.getData buf (chars.write 0 data)
  | f => TypeChar.strcpy buf (toString f)

/-- What `ExecuteSelect` gives to `PrintTable` and `PrintInfo`. -/
structure SelectOutput where
  /-- `header` -/
  header : List StdString
  /-- `output_info` -/
  outputInfo : List (List StdString)
  /-- `rows_num` -/
  rowsNum : ℕ

namespace PagedHeap

/-- `ExecuteInsert` into a table without indexes, with the id that `NewPage` gives: the
row id, where it succeeds. -/
def executeInsert (h : PagedHeap) (values : List Literal) (newPageId : PageId) :
    Option (PagedHeap × Option RowId) :=
  match insertFields h.schema.columns values with
  | none => none
  | some none => some (h, none)
  | some (some fields) => h.insertTuple fields newPageId

/-- The loop of `ExecuteSelect` over the rows, for one column: what is appended to
`output_info`, and what is in the buffer afterwards. -/
def columnInfo (toString : Field → Mem) (chars : RowId → Mem) (colId : ℕ) :
    List TableIterator → Mem → Option (List StdString × Mem)
  | [], buf => some ([], buf)
  | it :: its, buf => do
    let field ← it.fields[colId]?
    let buf ← field.getData toString buf (chars it.rid)
    let cell ← TypeChar.text buf
    let (cells, buf) ← columnInfo toString chars colId its buf
    return (cell :: cells, buf)

/-- The loop of `ExecuteSelect` over the columns, from the one of the given number on. -/
def outputInfo (h : PagedHeap) (rounds : ℕ) (toString : Field → Mem)
    (chars : ℕ → RowId → Mem) : ℕ → List Column → Mem → Option (List (List StdString))
  | _, [], _ => some []
  | j, c :: cs, buf => do
    let colId ← h.schema.getColumnIndex c.name
    let its ← h.scan rounds
    let (cells, buf) ← columnInfo toString (chars j) colId its buf
    return cells :: (← outputInfo h rounds toString chars (j + 1) cs buf)

/-- `ExecuteSelect` of all columns, without `WHERE`, for at most the given number of rounds
of the loop over the rows. It divides by the number of columns. -/
def executeSelect (h : PagedHeap) (m : Surroundings) (rounds : ℕ) : Option SelectOutput := do
  let selectColumns := h.schema.columns
  let info ← h.outputInfo rounds m.toString m.chars 0 selectColumns m.buf
  if selectColumns.length = 0 then none
  else
    let rowsNum := (info.map List.length).sum / selectColumns.length
    return ⟨selectColumns.map Column.name, info, rowsNum⟩

/-! ## What is expected -/

/-- An `INSERT` of string literals, with the id that `NewPage` gives in it. -/
def insertStrings (h : PagedHeap) (statement : List StdString × PageId) :
    Option (PagedHeap × Option RowId) :=
  h.executeInsert (statement.1.map .string) statement.2

/-- The strings of a row in the column of the given number. -/
def stringAt (row : List StdString) (j : ℕ) : StdString := row.getD j []

/-- **What was inserted is what is selected**: the output has a line for every row, and in
it the strings that were inserted. -/
def SelectsInserted (h : PagedHeap) (rows : List (RowId × List StdString)) (m : Surroundings) :
    Prop :=
  ∃ (rounds : ℕ) (order : List (RowId × List StdString)) (output : SelectOutput), order.Perm rows ∧
    (h.scan rounds).map (·.map TableIterator.rid) = some (order.map Prod.fst) ∧
    h.executeSelect m rounds = some output ∧
    output.outputInfo = (List.range h.schema.columns.length).map (fun j =>
      order.map (fun r => stringAt r.2 j))

/-- **When it is**: there is a column, and for every column and row the bytes of the field
that is read, with the memory behind them, are the string inserted there and then a byte
that is neither a letter nor a digit, the string having no others; a zero byte comes before
the buffer is full. The field that is read is that of the first column of the same name. -/
def Prints (schema : Schema) (rows : List (RowId × List StdString)) (m : Surroundings) : Prop :=
  schema.columns ≠ [] ∧ ∀ r ∈ rows, ∀ j, ∀ c ∈ schema.columns[j]?,
    ∀ colId ∈ schema.getColumnIndex c.name,
      TypeChar.Ends ((m.chars j r.1).write 0 (stringAt r.2 colId)) ∧
        TypeChar.HasText ((m.chars j r.1).write 0 (stringAt r.2 colId)) (stringAt r.2 j)

/-! ## What an `INSERT` does -/

open TablePage

variable {P : Tuple → Prop} {schema : Schema} {h h' h₀ : PagedHeap} {ids : List PageId}
  {slots : PageId → List (Slot Tuple)} {rows order : List (RowId × List StdString)}
  {fields : List Field} {values : List StdString} {new pageId : PageId} {rid q : RowId}

/-- A string literal that passes the checks becomes a field. -/
theorem insertField_string {c : Column} {v : StdString} {f : Field}
    (h : c.insertField (.string v) = some (some f)) : f = .chars v := by
  cases htype : c.type with
  | kTypeChar =>
    simp only [Column.insertField, htype] at h
    by_cases hlong : c.len < v.length
    · rw [if_pos hlong] at h
      cases h
    · rw [if_neg hlong] at h
      by_cases hfits : v.length < varcharMaxLen
      · rw [if_pos hfits] at h
        cases h
        rfl
      · rw [if_neg hfits] at h
        cases h
  | kTypeInvalid | kTypeInt | kTypeFloat =>
    simp only [Column.insertField, htype] at h
    cases h

/-- String literals that pass the checks become the fields of the row. -/
theorem insertFields_strings {cs : List Column}
    (h : insertFields cs (values.map .string) = some (some fields)) :
    fields = values.map .chars ∧ values.length = cs.length := by
  induction cs generalizing values fields with
  | nil =>
    cases values with
    | nil =>
      cases h
      exact ⟨rfl, rfl⟩
    | cons v vs => cases h
  | cons c cs ih =>
    cases values with
    | nil => cases h
    | cons v vs =>
      rw [List.map_cons, insertFields] at h
      rcases hf : c.insertField (.string v) with _ | _ | f
      · rw [hf] at h
        cases h
      · rw [hf] at h
        cases h
      · rw [hf] at h
        obtain ⟨fs, hfs, hrow⟩ := Option.map_eq_some_iff.mp h
        obtain ⟨fs', rfl, hcons⟩ := Option.map_eq_some_iff.mp hrow
        cases hcons
        obtain ⟨rfl, hlen⟩ := ih hfs
        refine ⟨?_, congrArg Nat.succ hlen⟩
        rw [List.map_cons, insertField_string hf]

/-- The fields of a row of strings are a row of the schema. -/
theorem rowOf_strings (h : insertFields schema.columns (values.map .string) = some (some fields)) :
    RowOf schema fields := by
  refine ⟨(obeyed_of_insertFields h).2, fun f hf => ?_⟩
  rw [(insertFields_strings h).1] at hf
  obtain ⟨v, -, rfl⟩ := List.mem_map.mp hf
  rfl

/-- What a statement that inserts a row has done. -/
theorem insertStrings_eq_some (h : h₀.insertStrings (values, new) = some (h', some rid)) :
    h₀.insertTuple (values.map .chars) new = some (h', some rid) ∧
      RowOf h₀.schema (values.map .chars) ∧ values.length = h₀.schema.columns.length := by
  unfold insertStrings executeInsert at h
  dsimp only at h
  rcases hfields : insertFields h₀.schema.columns (values.map .string) with _ | _ | fields
  · rw [hfields] at h
    cases h
  · rw [hfields] at h
    cases h
  · rw [hfields] at h
    obtain ⟨rfl, hlen⟩ := insertFields_strings hfields
    exact ⟨h, rowOf_strings hfields, hlen⟩

theorem firstPageId_insertTuple {r : Option RowId}
    (h : h₀.insertTuple fields new = some (h', r)) : h'.firstPageId = h₀.firstPageId := by
  unfold insertTuple at h
  obtain ⟨t, -, h⟩ := Option.bind_eq_some_iff.mp h
  obtain ⟨⟨p, rid, page⟩, -, h⟩ := Option.bind_eq_some_iff.mp h
  cases rid with
  | some rid =>
    cases h
    rfl
  | none =>
    obtain ⟨_, -, h⟩ := Option.bind_eq_some_iff.mp h
    obtain ⟨_, -, h⟩ := Option.bind_eq_some_iff.mp h
    obtain ⟨_, -, h⟩ := Option.bind_eq_some_iff.mp h
    obtain ⟨_, -, h⟩ := Option.bind_eq_some_iff.mp h
    split at h
    cases h
    rfl

/-- **The first row** is put into the first page. -/
theorem Laid.pageId_of_insertTuple (hl : Laid P h ids slots) (hids : ids = [pageId])
    (hempty : slots pageId = []) (hP : ∀ t, Tuple.ofFields fields = some t → P t)
    (hins : h.insertTuple fields new = some (h', some rid)) : rid.pageId = pageId := by
  obtain ⟨t, ht⟩ : ∃ t, Tuple.ofFields fields = some t := by
    refine Option.ne_none_iff_exists'.mp (fun hnone => ?_)
    rw [PagedHeap.insertTuple, hnone] at hins
    cases hins
  have hmem : pageId ∈ ids := hids ▸ List.mem_singleton_self pageId
  rcases hl.insertTuple ht (hP t ht) new with ⟨-, hnone⟩ | ⟨h'', r, hsome, -, hcases⟩
  · rw [hnone] at hins
    cases hins
  cases hsome.symm.trans hins
  rcases hcases with ⟨id, hid, s, i, -, hrid, -⟩ | ⟨-, s, i, hs, hrid, -⟩
  · cases hrid
    rw [hids] at hid
    exact List.mem_singleton.mp hid
  · -- a row that fits into a new page would have been put into the first one
    cases i with
    | none => cases hrid
    | some i =>
      rcases insertLoop_spec hl.linked
        (fun q hq => ⟨(hl.inUse q).mpr hq, hl.ne_invalid hq⟩) hl.length_le none with
        ⟨id, hid, q, rid', hq, hloop⟩ | ⟨hno, -⟩
      · cases (insertTuple_of_found ht hloop).symm.trans hins
        obtain ⟨_, j, -, hrid', -⟩ := Represents.insertTuple_eq' (hl.pages id hid) hq
        obtain ⟨k, -, hk⟩ := Option.map_eq_some_iff.mp hrid'.symm
        rw [hids] at hid
        rw [← hk]
        exact List.mem_singleton.mp hid
      · obtain ⟨q, hq⟩ := hno pageId hmem
        obtain ⟨_, j, hj, hrid', -⟩ := Represents.insertTuple_eq' (hl.pages pageId hmem) hq
        rw [hempty, hs] at hj
        cases hj
        cases hrid'

/-! ## The rows in the heap -/

/-- **The heap has these rows**, in one live tuple each and no other; the first of them is on
the first page. -/
structure Stores (schema : Schema) (h : PagedHeap) (rows : List (RowId × List StdString)) :
    Prop where
  schema_eq : h.schema = schema
  laid : ∃ ids slots, Laid (fun _ => True) h ids slots ∧
    (rows = [] → ids = [h.firstPageId] ∧ slots h.firstPageId = [])
  nodup : (rows.map Prod.fst).Nodup
  live : ∀ q, (h.tupleAt q).isLive = true ↔ q ∈ rows.map Prod.fst
  got : ∀ r ∈ rows, h.getTuple r.1 = some (some (r.2.map .chars)) ∧
    r.2.length = schema.columns.length
  starts : ∀ r ∈ rows.head?, r.1.pageId = h.firstPageId

/-- A new heap has no rows. -/
theorem stores_create (h : create schema pageId = some h₀) : Stores schema h₀ [] := by
  obtain ⟨hschema, hl⟩ := @laid_create (fun _ => True) _ _ _ h
  have hfirst : h₀.firstPageId = pageId := hl.linked.1
  refine ⟨hschema, ⟨[pageId], fun _ => [], hl, fun _ => ⟨by rw [hfirst], rfl⟩⟩, List.nodup_nil,
    fun q => ?_, nofun, nofun⟩
  rw [hl.tupleAt_eq]
  refine iff_of_false (fun hlive => ?_) List.not_mem_nil
  split at hlive
  · cases hlive
  · cases hlive

/-- A live tuple that is as it was is read as it was. -/
theorem Laid.getTuple_congr {ids' : List PageId} {slots' : PageId → List (Slot Tuple)}
    (hl : Laid P h ids slots) (hl' : Laid P h' ids' slots') (hschema : h'.schema = h.schema)
    (hlive : (h.tupleAt q).isLive = true) (heq : h'.tupleAt q = h.tupleAt q) :
    h'.getTuple q = h.getTuple q := by
  obtain ⟨t, ht, hget⟩ := hl.live_of_mem ((hl.mem_rids q).mpr hlive)
  obtain ⟨t', ht', hget'⟩ := hl'.live_of_mem ((hl'.mem_rids q).mpr (heq ▸ hlive))
  have hbytes : t'.bytes = t.bytes := by
    rw [heq, ht] at ht'
    exact (Slot.live.inj ht').symm
  rw [hget', hget, hschema, hbytes]

/-- **A statement that inserts a row** adds it. -/
theorem Stores.insert (h : Stores schema h₀ rows)
    (hins : h₀.insertStrings (values, new) = some (h', some rid)) :
    Stores schema h' (rows ++ [(rid, values)]) := by
  obtain ⟨hheap, hrow, hlen⟩ := insertStrings_eq_some hins
  obtain ⟨ids, slots, hl, hone⟩ := h.laid
  obtain ⟨hfree, hget, hother⟩ := hl.insertTuple_some hrow hheap
  obtain ⟨hschema, ids', slots', hl'⟩ := hl.of_insertTuple (fun _ _ => trivial) hheap
  have hnew : rid ∉ rows.map Prod.fst := fun hmem => by
    have hlive := (h.live rid).mpr hmem
    rw [hfree] at hlive
    cases hlive
  refine ⟨hschema.trans h.schema_eq, ⟨ids', slots', hl', fun hnil => ?_⟩, ?_, fun q => ?_, ?_, ?_⟩
  · exact absurd hnil (List.append_ne_nil_of_right_ne_nil rows (List.cons_ne_nil _ _))
  · rw [List.map_append]
    refine List.nodup_append.mpr ⟨h.nodup, List.nodup_singleton _, fun q hq q' hq' heq => ?_⟩
    rw [heq, List.mem_singleton.mp hq'] at hq
    exact hnew hq
  · rw [List.map_append, List.mem_append]
    show _ ↔ _ ∨ q ∈ [rid]
    rw [List.mem_singleton]
    by_cases hq : q = rid
    · exact iff_of_true (hq ▸ hl'.mem_liveTuples hget) (.inr hq)
    · rw [hother q hq, h.live, or_iff_left hq]
  · intro r hr
    rcases List.mem_append.mp hr with hr | hr
    · have hlive := (h.live r.1).mpr (List.mem_map_of_mem hr)
      have hne : r.1 ≠ rid := fun heq => hnew (heq ▸ List.mem_map_of_mem hr)
      obtain ⟨hgot, hlength⟩ := h.got r hr
      rw [hl.getTuple_congr hl' hschema hlive (hother _ hne)]
      exact ⟨hgot, hlength⟩
    · rw [List.mem_singleton.mp hr]
      exact ⟨hget, h.schema_eq ▸ hlen⟩
  · intro r hr
    rw [firstPageId_insertTuple hheap]
    cases rows with
    | nil =>
      obtain rfl : (rid, values) = r := Option.some.inj hr
      obtain ⟨hids, hempty⟩ := hone rfl
      exact hl.pageId_of_insertTuple hids hempty (fun _ _ => trivial) hheap
    | cons r' rows =>
      exact h.starts r hr

/-- **Statements that insert rows** add them. -/
theorem Stores.run {statements : List (List StdString × PageId)} {rids : List RowId}
    (h : Stores schema h₀ rows)
    (hrun : Machine.run insertStrings h₀ statements = some (h', rids.map some)) :
    Stores schema h' (rows ++ rids.zip (statements.map Prod.fst)) := by
  induction statements generalizing h₀ rows rids with
  | nil =>
    obtain ⟨rfl, -⟩ := Prod.mk.inj (Option.some.inj hrun)
    rw [List.map_nil, List.zip_nil_right, List.append_nil]
    exact h
  | cons statement statements ih =>
    obtain ⟨h₁, answer, answers, hstep, hrest, hanswers⟩ := Machine.run_cons_eq_some hrun
    cases rids with
    | nil => cases hanswers
    | cons rid rids =>
      obtain ⟨rfl, rfl⟩ := List.cons.inj hanswers
      have hrows : rows ++ (rid :: rids).zip ((statement :: statements).map Prod.fst) =
          (rows ++ [(rid, statement.1)]) ++ rids.zip (statements.map Prod.fst) := by
        rw [List.append_assoc]
        rfl
      rw [hrows]
      exact ih (h.insert hstep) hrest

/-! ## The scan over them -/

/-- The iterator on a row. -/
def iteratorOn (r : RowId × List StdString) : TableIterator := ⟨r.1, r.2.map .chars⟩

theorem Laid.nodup_rids (hl : Laid P h ids slots) : (ids.flatMap (pageRids slots)).Nodup := by
  refine List.nodup_flatMap.mpr ⟨fun id _ => ?_, hl.nodup.imp (fun {id id'} hne => ?_)⟩
  · refine List.Nodup.map (fun i j hij => congrArg RowId.slotNum hij) ?_
    exact List.Nodup.filter _ List.nodup_range'
  · intro r hr hr'
    exact hne ((mem_pageRids.mp hr).1.symm.trans (mem_pageRids.mp hr').1)

/-- The scan does not depend on the number of rounds that are allowed. -/
theorem scanFrom_unique {n m : ℕ} {it : TableIterator} {its its' : List TableIterator}
    (hn : h.scanFrom n it = some its) (hm : h.scanFrom m it = some its') : its = its' := by
  induction n generalizing m it its its' with
  | zero => cases hn
  | succ n ih =>
    cases m with
    | zero => cases hm
    | succ m =>
      rw [scanFrom] at hn hm
      by_cases hend : it.rid = endOf.rid
      · rw [if_pos hend] at hn hm
        exact Option.some.inj (hn.symm.trans hm)
      · rw [if_neg hend] at hn hm
        obtain ⟨it₁, hnext, hn⟩ := Option.bind_eq_some_iff.mp hn
        rw [hnext] at hm
        obtain ⟨rest, hrest, rfl⟩ := Option.map_eq_some_iff.mp hn
        obtain ⟨rest', hrest', rfl⟩ := Option.map_eq_some_iff.mp hm
        rw [ih hrest hrest']

theorem scan_unique {n m : ℕ} {its its' : List TableIterator} (hn : h.scan n = some its)
    (hm : h.scan m = some its') : its = its' := by
  obtain ⟨it, hbegin, hn⟩ := Option.bind_eq_some_iff.mp hn
  obtain ⟨it', hbegin', hm⟩ := Option.bind_eq_some_iff.mp hm
  cases hbegin.symm.trans hbegin'
  exact scanFrom_unique hn hm

/-- **The scan visits the rows**, each of them once. -/
theorem Stores.exists_scan (h : Stores schema h' rows) :
    ∃ (rounds : ℕ) (order : List (RowId × List StdString)), order.Perm rows ∧
      h'.scan rounds = some (order.map iteratorOn) := by
  obtain ⟨ids, slots, hl, -⟩ := h.laid
  have hget : ∀ q, (h'.tupleAt q).isLive = true →
      ∃ r ∈ rows, r.1 = q ∧ h'.getTuple q = some (some (r.2.map .chars)) := by
    intro q hq
    obtain ⟨r, hr, rfl⟩ := List.mem_map.mp ((h.live q).mp hq)
    exact ⟨r, hr, rfl, (h.got r hr).1⟩
  have hreadable : h'.Readable := by
    intro q bytes hbytes
    have hlive : (h'.tupleAt q).isLive = true := by rw [hbytes]; rfl
    obtain ⟨t, ht, hread⟩ := hl.live_of_mem ((hl.mem_rids q).mpr hlive)
    obtain ⟨r, -, -, hgot⟩ := hget q hlive
    rw [hbytes] at ht
    cases ht
    obtain ⟨fields, hfields, -⟩ := Option.map_eq_some_iff.mp (hread.symm.trans hgot)
    exact ⟨fields, hfields⟩
  have hstarts : h'.StartsLive := by
    cases hrows : rows with
    | nil =>
      refine .inr (fun q => Bool.eq_false_iff.mpr (fun hq => ?_))
      have hmem := (h.live q).mp hq
      rw [hrows] at hmem
      exact List.not_mem_nil hmem
    | cons r rest =>
      have hfirst := h.starts r (by rw [hrows]; rfl)
      refine .inl ⟨r.1.slotNum, ?_⟩
      rw [← hfirst, h.live, hrows]
      exact List.mem_cons_self
  obtain ⟨ids', rounds, visited, hchain, hscan, hrids, hfields⟩ :=
    hl.yields_iff.mpr ⟨hstarts, hreadable⟩
  obtain rfl : ids = ids' := hl.linked.unique hchain.2.2 (fun q hq => hl.ne_invalid hq)
    (fun q hq => (hchain.2.1 q hq).2)
  rw [hl.liveRids_eq] at hrids
  have hperm : (visited.map TableIterator.rid).Perm (rows.map Prod.fst) := by
    rw [hrids]
    refine (List.perm_ext_iff_of_nodup hl.nodup_rids h.nodup).mpr (fun q => ?_)
    rw [hl.mem_rids, h.live]
  have hsame : List.Forall₂ (fun q (r : RowId × List StdString) => q = r.1) (rows.map Prod.fst)
      rows := List.forall₂_map_left_iff.mpr (List.forall₂_same.mpr (fun _ _ => rfl))
  obtain ⟨order, hforall, horder⟩ := List.perm_comp_forall₂ hperm hsame
  have horders : visited.map TableIterator.rid = order.map Prod.fst := by
    rw [← List.forall₂_eq_eq_eq]
    exact List.forall₂_map_right_iff.mpr hforall
  -- what is read depends on the row id only
  let reader : RowId → TableIterator := fun q => ⟨q, ((h'.getTuple q).bind id).getD []⟩
  have hvisited : visited = (visited.map TableIterator.rid).map reader := by
    rw [List.map_map]
    refine (List.map_id _).symm.trans (List.map_congr_left (fun it hit => ?_))
    show it = ⟨it.rid, ((h'.getTuple it.rid).bind id).getD []⟩
    rw [hfields it hit]
    rfl
  refine ⟨rounds, order, horder, hscan.trans (congrArg some ?_)⟩
  rw [hvisited, horders, List.map_map]
  refine List.map_congr_left (fun r hr => ?_)
  show (⟨r.1, ((h'.getTuple r.1).bind id).getD []⟩ : TableIterator) = iteratorOn r
  rw [(h.got r (horder.subset hr)).1]
  rfl

/-! ## What is printed -/

variable {toString : Field → Mem} {chars : RowId → Mem} {buf : Mem} {colId rounds j : ℕ}
  {m : Surroundings}

theorem getElem?_iteratorOn {r : RowId × List StdString} (hlt : colId < r.2.length) :
    (iteratorOn r).fields[colId]? = some (.chars (stringAt r.2 colId)) := by
  show (r.2.map Field.chars)[colId]? = _
  rw [List.getElem?_map, stringAt, List.getD_eq_getElem?_getD, List.getElem?_eq_getElem hlt]
  rfl

/-- **The cells of a column** are as expected exactly if for each row `GetData` gives what is
expected. -/
theorem columnInfo_iff {cell : RowId × List StdString → StdString}
    (hlen : ∀ r ∈ order, colId < r.2.length) :
    (∃ buf', columnInfo toString chars colId (order.map iteratorOn) buf =
      some (order.map cell, buf')) ↔
      ∀ r ∈ order, TypeChar.Ends ((chars r.1).write 0 (stringAt r.2 colId)) ∧
        TypeChar.HasText ((chars r.1).write 0 (stringAt r.2 colId)) (cell r) := by
  induction order generalizing buf with
  | nil => exact iff_of_true ⟨buf, rfl⟩ nofun
  | cons r order ih =>
    obtain ⟨hr, hrest⟩ := List.forall_mem_cons.mp hlen
    have hread : columnInfo toString chars colId ((r :: order).map iteratorOn) buf =
        (TypeChar.getData buf ((chars r.1).write 0 (stringAt r.2 colId))).bind (fun buf =>
          (TypeChar.text buf).bind (fun c =>
            (columnInfo toString chars colId (order.map iteratorOn) buf).bind (fun p =>
              some (c :: p.1, p.2)))) := by
      rw [List.map_cons, columnInfo, getElem?_iteratorOn hr]
      rfl
    rw [List.forall_mem_cons, ← @TypeChar.text_getData_iff buf, hread]
    constructor
    · rintro ⟨buf', h⟩
      obtain ⟨buf₁, hget, h⟩ := Option.bind_eq_some_iff.mp h
      obtain ⟨c, htext, h⟩ := Option.bind_eq_some_iff.mp h
      obtain ⟨⟨cells, buf₂⟩, hcells, h⟩ := Option.bind_eq_some_iff.mp h
      obtain ⟨hcons, -⟩ := Prod.mk.inj (Option.some.inj h)
      obtain ⟨rfl, rfl⟩ := List.cons.inj hcons
      exact ⟨⟨buf₁, hget, htext⟩, (ih hrest).mp ⟨buf₂, hcells⟩⟩
    · rintro ⟨⟨buf₁, hget, htext⟩, hcells⟩
      obtain ⟨buf₂, hcells⟩ := (@ih buf₁ hrest).mpr hcells
      refine ⟨buf₂, ?_⟩
      rw [hget, Option.bind_some, htext, Option.bind_some, hcells]
      rfl

/-- A column is found under its name. -/
theorem exists_getColumnIndex {c : Column} (hc : c ∈ schema.columns) :
    ∃ i, schema.getColumnIndex c.name = some i ∧ i < schema.columns.length := by
  have hfound : (schema.getColumnIndex c.name).isSome = true := by
    rw [Schema.getColumnIndex, List.findIdx?_isSome]
    exact List.any_eq_true.mpr ⟨c, hc, decide_eq_true rfl⟩
  obtain ⟨i, hi⟩ := Option.isSome_iff_exists.mp hfound
  exact ⟨i, hi, (List.findIdx?_eq_some_iff_getElem.mp hi).1⟩

/-- **The columns of the output** are as expected exactly if each of them is. -/
theorem outputInfo_iff {chars : ℕ → RowId → Mem} {cs : List Column}
    (hscan : h.scan rounds = some (order.map iteratorOn))
    (hlen : ∀ r ∈ order, r.2.length = h.schema.columns.length) (hcs : cs ⊆ h.schema.columns) :
    h.outputInfo rounds toString chars j cs buf =
        some ((List.range' j cs.length).map (fun k => order.map (fun r => stringAt r.2 k))) ↔
      ∀ i, ∀ c ∈ cs[i]?, ∀ colId ∈ h.schema.getColumnIndex c.name, ∀ r ∈ order,
        TypeChar.Ends ((chars (j + i) r.1).write 0 (stringAt r.2 colId)) ∧
          TypeChar.HasText ((chars (j + i) r.1).write 0 (stringAt r.2 colId))
            (stringAt r.2 (j + i)) := by
  induction cs generalizing j buf with
  | nil => exact iff_of_true rfl (fun i c hc => nomatch hc)
  | cons c cs ih =>
    obtain ⟨hc, hcs⟩ := List.cons_subset.mp hcs
    obtain ⟨colId, hcol, hlt⟩ := exists_getColumnIndex hc
    have hread : h.outputInfo rounds toString chars j (c :: cs) buf =
        (columnInfo toString (chars j) colId (order.map iteratorOn) buf).bind (fun p =>
          (h.outputInfo rounds toString chars (j + 1) cs p.2).bind (fun rest =>
            some (p.1 :: rest))) := by
      rw [outputInfo, hcol, hscan]
      rfl
    have hcolumn := @columnInfo_iff order toString (chars j) buf colId (fun r => stringAt r.2 j)
      (fun r hr => hlt.trans_eq (hlen r hr).symm)
    rw [hread, List.length_cons, List.range'_succ, List.map_cons]
    constructor
    · intro h
      obtain ⟨⟨cells, buf₁⟩, hcells, h⟩ := Option.bind_eq_some_iff.mp h
      obtain ⟨rest, hrest, h⟩ := Option.bind_eq_some_iff.mp h
      obtain ⟨rfl, rfl⟩ := List.cons.inj (Option.some.inj h)
      intro i c' hc' colId' hcol'
      cases i with
      | zero =>
        cases hc'
        cases hcol.symm.trans hcol'
        exact hcolumn.mp ⟨buf₁, hcells⟩
      | succ i =>
        have hnext := (ih hcs).mp hrest i c' hc' colId' hcol'
        rwa [Nat.add_right_comm j 1 i] at hnext
    · intro h
      obtain ⟨buf₁, hcells⟩ := hcolumn.mpr (h 0 c rfl colId hcol)
      have hrest := (@ih buf₁ (j + 1) hcs).mpr (fun i c' hc' colId' hcol' => by
        have hnext := h (i + 1) c' hc' colId' hcol'
        rwa [← Nat.add_assoc, Nat.add_right_comm j i 1] at hnext)
      rw [hcells, Option.bind_some, hrest]
      rfl

theorem executeSelect_eq_some {output : SelectOutput} :
    h.executeSelect m rounds = some output ↔ ∃ info,
      h.outputInfo rounds m.toString m.chars 0 h.schema.columns m.buf = some info ∧
        h.schema.columns ≠ [] ∧ ⟨h.schema.columns.map Column.name, info,
          (info.map List.length).sum / h.schema.columns.length⟩ = output := by
  rw [executeSelect]
  dsimp only
  cases hinfo : h.outputInfo rounds m.toString m.chars 0 h.schema.columns m.buf with
  | none => exact iff_of_false nofun (by rintro ⟨info, ⟨⟩, -⟩)
  | some info =>
    show (if h.schema.columns.length = 0 then none else some _) = some output ↔ _
    by_cases hnil : h.schema.columns = []
    · rw [if_pos (List.length_eq_zero_iff.mpr hnil)]
      refine iff_of_false nofun ?_
      rintro ⟨-, -, hne, -⟩
      exact hne hnil
    · rw [if_neg (fun hlen => hnil (List.length_eq_zero_iff.mp hlen)), Option.some_inj]
      constructor
      · exact fun houtput => ⟨info, rfl, hnil, houtput⟩
      · rintro ⟨info', hinfo', -, houtput⟩
        cases hinfo'
        exact houtput

/-- Rows with different row ids, in the order of these. -/
theorem eq_of_map_fst {order' : List (RowId × List StdString)} (hnodup : (rows.map Prod.fst).Nodup)
    (h : order ⊆ rows) (h' : order' ⊆ rows) (hmap : order.map Prod.fst = order'.map Prod.fst) :
    order = order' := by
  induction order generalizing order' with
  | nil => exact (List.map_eq_nil_iff.mp hmap.symm).symm
  | cons r order ih =>
    cases order' with
    | nil => cases hmap
    | cons r' order' =>
      obtain ⟨hhead, htail⟩ := List.cons.inj hmap
      obtain ⟨hr, h⟩ := List.cons_subset.mp h
      obtain ⟨hr', h'⟩ := List.cons_subset.mp h'
      rw [List.inj_on_of_nodup_map hnodup hr hr' hhead, ih h h' htail]

/-- **The rows of a heap are what is selected** exactly if they are printed as they are. -/
theorem Stores.selectsInserted_iff (hs : Stores schema h rows) :
    h.SelectsInserted rows m ↔ Prints schema rows m := by
  obtain ⟨rounds, order, hperm, hscan⟩ := hs.exists_scan
  have hlen : ∀ r ∈ order, r.2.length = h.schema.columns.length := fun r hr => by
    rw [hs.schema_eq]
    exact (hs.got r (hperm.subset hr)).2
  have hprints : ∀ n, h.scan n = some (order.map iteratorOn) →
      (h.outputInfo n m.toString m.chars 0 h.schema.columns m.buf =
        some ((List.range h.schema.columns.length).map (fun j =>
          order.map (fun r => stringAt r.2 j))) ∧ h.schema.columns ≠ [] ↔
        Prints schema rows m) := by
    intro n hscan
    rw [List.range_eq_range', outputInfo_iff hscan hlen (List.Subset.refl _), hs.schema_eq,
      and_comm]
    refine and_congr_right (fun _ => ⟨fun hall r hr j c hc colId hcol => ?_,
      fun hall j c hc colId hcol r hr => ?_⟩)
    · have hj := hall j c hc colId hcol r (hperm.mem_iff.mpr hr)
      rwa [Nat.zero_add] at hj
    · rw [Nat.zero_add]
      exact hall r (hperm.subset hr) j c hc colId hcol
  constructor
  · rintro ⟨rounds', order', output, hperm', hrids, hselect, houtput⟩
    obtain ⟨info, hinfo, hne, rfl⟩ := executeSelect_eq_some.mp hselect
    obtain ⟨its, hscan', hmap⟩ := Option.map_eq_some_iff.mp hrids
    obtain rfl := scan_unique hscan' hscan
    have hmap' : order.map Prod.fst = order'.map Prod.fst := by
      rw [← hmap, List.map_map]
      rfl
    obtain rfl := eq_of_map_fst hs.nodup hperm.subset hperm'.subset hmap'
    exact (hprints rounds' hscan').mp ⟨hinfo.trans (congrArg some houtput), hne⟩
  · intro hprinted
    obtain ⟨hinfo, hne⟩ := (hprints rounds hscan).mpr hprinted
    refine ⟨rounds, order, _, hperm, ?_, executeSelect_eq_some.mpr ⟨_, hinfo, hne, rfl⟩, rfl⟩
    rw [hscan, Option.map_some, List.map_map]
    rfl

/-- **What was inserted is what is selected** exactly if for each row and each column the
string inserted there is printed: it has letters and digits only, the memory behind the field
that is read goes on with none of them, and a zero comes before the buffer is full. -/
theorem selectsInserted_iff_prints (hcreate : create schema pageId = some h₀)
    {statements : List (List StdString × PageId)} {rids : List RowId}
    (hrun : Machine.run insertStrings h₀ statements = some (h, rids.map some)) (m : Surroundings) :
    h.SelectsInserted (rids.zip (statements.map Prod.fst)) m ↔
      Prints schema (rids.zip (statements.map Prod.fst)) m :=
  ((stores_create hcreate).run hrun).selectsInserted_iff

/-! ## Two strings -/

open PagedTable (charSchema)

/-- A memory of zeros. -/
def blank : Surroundings := ⟨fun _ => 0, fun _ _ => 0, fun _ _ _ => 0⟩

/-- `ab` and `a b` are both inserted into a table of one column. -/
theorem run_insertStrings : ∀ v ∈ ([[97, 98], [97, 32, 98]] : List StdString),
    ((create charSchema 0).bind (fun h₀ =>
      (Machine.run insertStrings h₀ [([v], 1)]).map Prod.snd)) = some [some ⟨0, 0⟩] := by
  decide +kernel

/-- What is printed for one string in a memory of zeros. -/
theorem prints_blank {v : StdString} (hv : v.length < TypeChar.bufSize) :
    Prints charSchema [(⟨0, 0⟩, [v])] blank ↔ ∀ b ∈ v, TypeChar.isAlnum b = true := by
  have hends : TypeChar.Ends (Mem.write (fun _ => 0) 0 v) :=
    ⟨v.length, hv, Mem.write_of_not (.inr (Nat.zero_add _).le)⟩
  constructor
  · rintro ⟨-, hall⟩
    exact (TypeChar.hasText_write.mp
      (hall _ List.mem_cons_self 0 _ rfl 0 rfl).2).1
  · intro halnum
    refine ⟨List.cons_ne_nil _ _, fun r hr j c hc colId hcol => ?_⟩
    cases List.mem_singleton.mp hr
    cases j with
    | zero =>
      cases hc
      cases hcol
      exact ⟨hends, TypeChar.hasText_write.mpr ⟨halnum, rfl⟩⟩
    | succ j => cases hc

/-- What `ab` was inserted as is what is selected. -/
theorem selectsInserted_iff_prints_ab : ∃ h₀ h, create charSchema 0 = some h₀ ∧
    Machine.run insertStrings h₀ [([[97, 98]], 1)] = some (h, [some ⟨0, 0⟩]) ∧
      h.SelectsInserted [(⟨0, 0⟩, [[97, 98]])] blank := by
  obtain ⟨h₀, hcreate, hruns⟩ := Option.bind_eq_some_iff.mp
    (run_insertStrings [97, 98] List.mem_cons_self)
  obtain ⟨⟨h, answers⟩, hrun, rfl⟩ := Option.map_eq_some_iff.mp hruns
  refine ⟨h₀, h, hcreate, hrun, ?_⟩
  have hiff := @selectsInserted_iff_prints charSchema h h₀ 0 hcreate _ [⟨0, 0⟩] hrun blank
  exact hiff.mpr ((prints_blank (by decide)).mpr (List.all_eq_true.mp rfl))

/-- **A space ends the text**: `a b` is printed as `a`. -/
theorem not_selectsInserted : ¬ ∀ (schema : Schema) (pageId : PageId) (h₀ h : PagedHeap)
    (statements : List (List StdString × PageId)) (rids : List RowId) (m : Surroundings),
    create schema pageId = some h₀ → schema.columns ≠ [] →
    (∀ c ∈ schema.columns, c.type = .kTypeChar ∧ c.len < 128) →
    (∀ s ∈ statements, ∀ v ∈ s.1, ∀ b ∈ v, b ≠ 0) →
    Machine.run insertStrings h₀ statements = some (h, rids.map some) →
    h.SelectsInserted (rids.zip (statements.map Prod.fst)) m := by
  intro hall
  obtain ⟨h₀, hcreate, hruns⟩ := Option.bind_eq_some_iff.mp
    (run_insertStrings [97, 32, 98] (List.mem_cons_of_mem _ List.mem_cons_self))
  obtain ⟨⟨h, answers⟩, hrun, rfl⟩ := Option.map_eq_some_iff.mp hruns
  have hselects := hall charSchema 0 h₀ h [([[97, 32, 98]], 1)] [⟨0, 0⟩] blank hcreate
    (List.cons_ne_nil _ _) (List.forall_mem_singleton.mpr ⟨rfl, by decide⟩)
    (List.forall_mem_singleton.mpr (List.forall_mem_singleton.mpr (by simp))) hrun
  have hstores := @Stores.run charSchema h h₀ [] _ [⟨0, 0⟩] (stores_create hcreate) hrun
  have hprints : Prints charSchema [(⟨0, 0⟩, [[97, 32, 98]])] blank :=
    hstores.selectsInserted_iff.mp hselects
  have hspace := (prints_blank (by decide)).mp hprints 32
    (List.mem_cons_of_mem _ List.mem_cons_self)
  cases hspace

end PagedHeap

end MiniSql
