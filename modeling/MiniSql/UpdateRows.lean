import MiniSql.HeapOrder
import MiniSql.StatementEffects
import Mathlib.Data.Set.Card

/-!
# The rows of an update

What `ExecuteUpdate` does to the rows of a table, and the number of rows that
it reports. The statement goes over the selected rows once for each
assignment. A row that does not fit into its page gets another row id, and
two things may then go wrong:

* the next assignment looks for the row under the row id with which it was
  selected, and does not find it;
* a scan of the whole table meets the row again, behind its place.

A scan of the whole table does nothing at all where the first page has no live
row. Here is what one round does: every selected row is somewhere, due to
become what it is to become (`Run.rewrites`).
-/

namespace MiniSql

/-! ## Assignments -/

/-- The column of an assignment and the field that it puts there, where the
value is of the type of the column. -/
def Assignment.target (s : Schema) (a : Assignment) : Option (ℕ × Field) :=
  (s.getColumnIndex a.column).bind (fun c => s.columns[c]?.bind (fun col =>
    (col.updateField a.value).join.map (fun f => (c, f))))

/-- A row with an assignment applied. -/
def Assignment.apply (s : Schema) (a : Assignment) (row : List Field) : List Field :=
  match a.target s with
  | none => row
  | some (c, f) => row.set c f

/-- A row with one assignment after the other applied: the last one wins. -/
def applyAll (s : Schema) : List Assignment → List Field → List Field
  | [], row => row
  | a :: as, row => applyAll s as (a.apply s row)

/-- The field that an assignment puts into a column. -/
def Assignment.fieldAt (s : Schema) (a : Assignment) (i : ℕ) : Option Field :=
  (a.target s).bind (fun target => if target.1 = i then some target.2 else none)

/-- The field that assignments leave in a column. -/
def finalField (s : Schema) : List Assignment → ℕ → Option Field
  | [], _ => none
  | a :: as, i => (finalField s as i).or (a.fieldAt s i)

section Assignments

variable {s : Schema} {a : Assignment} {as bs : List Assignment} {row : List Field} {i : ℕ}

theorem getElem?_apply :
    (a.apply s row)[i]? = row[i]?.map (fun f => (a.fieldAt s i).getD f) := by
  unfold Assignment.apply Assignment.fieldAt
  cases a.target s with
  | none => exact Option.map_id'.symm
  | some target =>
    obtain ⟨c, f⟩ := target
    show (row.set c f)[i]? = _
    rw [List.getElem?_set, Option.bind_some]
    by_cases hc : c = i
    · rw [if_pos hc, if_pos hc, hc]
      by_cases hlt : i < row.length
      · rw [if_pos hlt, List.getElem?_eq_getElem hlt]
        rfl
      · rw [if_neg hlt, List.getElem?_eq_none (not_lt.mp hlt)]
        rfl
    · rw [if_neg hc, if_neg hc]
      exact Option.map_id'.symm

/-- The same assignment again. -/
theorem apply_apply : a.apply s (a.apply s row) = a.apply s row := by
  unfold Assignment.apply
  cases a.target s with
  | none => rfl
  | some target => exact List.set_set _

/-- **The fields of the new row.** -/
theorem getElem?_applyAll :
    (applyAll s as row)[i]? = row[i]?.map (fun f => (finalField s as i).getD f) := by
  induction as generalizing row with
  | nil => exact Option.map_id'.symm
  | cons a as ih =>
    have hfields : ∀ f, (finalField s as i).getD ((a.fieldAt s i).getD f) =
        ((finalField s as i).or (a.fieldAt s i)).getD f := by
      intro f
      cases finalField s as i <;> rfl
    unfold applyAll finalField
    rw [ih, getElem?_apply, Option.map_map]
    exact congrArg (fun g => row[i]?.map g) (funext hfields)

theorem finalField_append :
    finalField s (as ++ bs) i = (finalField s bs i).or (finalField s as i) := by
  induction as with
  | nil => exact (Option.or_none).symm
  | cons a as ih =>
    show (finalField s (as ++ bs) i).or _ = _
    rw [ih, Option.or_assoc]
    rfl

theorem finalField_eq_none : finalField s as i = none ↔ ∀ a ∈ as, a.fieldAt s i = none := by
  induction as with
  | nil => exact iff_of_true rfl nofun
  | cons a as ih =>
    show (finalField s as i).or (a.fieldAt s i) = none ↔ _
    rw [List.forall_mem_cons, ← ih, Option.or_eq_none_iff, and_comm]

theorem applyAll_append : applyAll s (as ++ bs) row = applyAll s bs (applyAll s as row) := by
  induction as generalizing row with
  | nil => rfl
  | cons a as ih => exact ih

/-- **Assignments hide** what some of them have done before. -/
theorem applyAll_of_subset (h : bs ⊆ as) :
    applyAll s as (applyAll s bs row) = applyAll s as row := by
  refine List.ext_getElem? (fun i => ?_)
  rw [getElem?_applyAll, getElem?_applyAll, getElem?_applyAll, Option.map_map]
  refine congrArg (fun g => row[i]?.map g) (funext (fun f => ?_))
  show (finalField s as i).getD ((finalField s bs i).getD f) = _
  cases has : finalField s as i with
  | some g => rfl
  | none =>
    have hbs : finalField s bs i = none :=
      finalField_eq_none.mpr (fun a ha => finalField_eq_none.mp has a (h ha))
    rw [hbs]
    rfl

/-- An assignment that is made twice. -/
theorem applyAll_apply (h : a ∈ as) : applyAll s as (a.apply s row) = applyAll s as row :=
  @applyAll_of_subset s as [a] row (fun _ hb => List.mem_singleton.mp hb ▸ h)

/-- **A row that assignments leave as it is** is left as it is by the last of
them. -/
theorem applyAll_eq_self_of_append (h : applyAll s (as ++ bs) row = row) :
    applyAll s bs row = row := by
  refine List.ext_getElem? (fun i => ?_)
  have hi := congrArg (fun r => r[i]?) h
  simp only [getElem?_applyAll, finalField_append] at hi
  rw [getElem?_applyAll]
  cases hrow : row[i]? with
  | none => rfl
  | some f =>
    rw [hrow] at hi
    cases hbs : finalField s bs i with
    | none => rfl
    | some g =>
      rw [hbs] at hi
      exact hi

end Assignments

/-- The new row of a round is the old one with the assignment applied. -/
theorem TableInfo.eq_apply_of_newRow {t : TableInfo} {a : Assignment} {old new : List Field}
    (h : t.newRow a old = some (some new)) : new = a.apply t.schema old := by
  obtain ⟨c, f, ⟨hc, col, hcol, hf⟩, -, rfl⟩ := newRow_eq_some.mp h
  have htarget : a.target t.schema = some (c, f) := by
    rw [Assignment.target, hc, Option.bind_some, hcol, Option.bind_some, hf]
    rfl
  rw [Assignment.apply, htarget]

/-! ## The statement and its count -/

namespace TableInfo

/-- One round, with `rows_num`. -/
def updateRowCounted (a : Assignment) (s : TableInfo × ℕ) (rid : RowId) :
    Option ((TableInfo × ℕ) × Bool) :=
  (s.1.updateRow a rid).map (fun r => ((r.1, if r.2 then s.2 + 1 else s.2), r.2))

/-- The rounds for one assignment. -/
def updateRowsCounted (selected : Option (List RowId)) (rounds : ℕ) (s : TableInfo × ℕ)
    (a : Assignment) : Option ((TableInfo × ℕ) × Bool) :=
  match selected with
  | some rids => Loops.forEach (updateRowCounted a) s rids
  | none =>
    Loops.scan (fun s rid => nextRow s.1 rid) (updateRowCounted a) rounds s s.1.heap.begin

/-- `ExecuteUpdate`, with the number of rows that it reports. -/
def executeUpdateCounted (t : TableInfo) (assignments : List Assignment)
    (selected : Option (List RowId)) (rounds : ℕ) : Option ((TableInfo × ℕ) × Bool) :=
  Loops.forEach (updateRowsCounted selected rounds) (t, 0) assignments

/-- Counting changes nothing. -/
theorem executeUpdateCounted_eq (t : TableInfo) (assignments : List Assignment)
    (selected : Option (List RowId)) (rounds : ℕ) :
    (t.executeUpdateCounted assignments selected rounds).map (fun r => (r.1.1, r.2)) =
      t.executeUpdate assignments selected rounds := by
  have hround : ∀ a (s : TableInfo × ℕ) rid,
      (updateRowCounted a s rid).map (fun r => (r.1.1, r.2)) = s.1.updateRow a rid := by
    intro a s rid
    rw [updateRowCounted, Option.map_map]
    exact Option.map_id'
  refine Loops.map_forEach (f := Prod.fst) (fun s a => ?_) (t, 0) assignments
  cases selected with
  | some rids => exact Loops.map_forEach (f := Prod.fst) (hround a) s rids
  | none =>
    have hnext : ∀ (s : TableInfo × ℕ) rid, nextRow s.1 rid = nextRow s.1 rid := fun _ _ => rfl
    exact Loops.map_scan (f := Prod.fst) hnext (hround a) rounds s _

/-- **One round that succeeds**: the row with the assignment goes to the place
that the heap has for it. -/
structure Rewrites (a : Assignment) (s s' : TableInfo × ℕ) (rid : RowId) (old : List Field)
    (rid' : RowId) : Prop where
  schema : s'.1.schema = s.1.schema
  ids : s'.1.ids = s.1.ids
  wellFormed : s'.1.heap.WellFormed s.1.ids
  length : s.1.heap.pages.length ≤ s'.1.heap.pages.length
  count : s'.2 = s.2 + 1
  got : s.1.heap.live rid = some old
  place : s.1.heap.place s.1.ids (a.apply s.1.schema old) rid = some rid'
  free : Function.update s.1.heap.live rid none rid' = none
  live : s'.1.heap.live =
    Function.update (Function.update s.1.heap.live rid none) rid' (some (a.apply s.1.schema old))

theorem exists_rewrites {a : Assignment} {s s' : TableInfo × ℕ} {rid : RowId}
    (hwf : s.1.heap.WellFormed s.1.ids)
    (hfit : ∀ old, s.1.heap.live rid = some old → TableHeap.FitsPage (a.apply s.1.schema old))
    (h : updateRowCounted a s rid = some (s', true)) :
    ∃ old rid', Rewrites a s s' rid old rid' := by
  obtain ⟨⟨t', b⟩, hround, hr⟩ := Option.map_eq_some_iff.mp h
  cases hr
  rcases updateRow_eq_some hround with
    ⟨hb, -⟩ | ⟨-, old, new, hlive, hnew, -, ⟨hschema, hids⟩, -, b', hup⟩
  · cases hb
  cases eq_apply_of_newRow hnew
  obtain ⟨⟨hwf', -, hlength⟩, hcases⟩ := hwf.updateTuple_place hlive hup
  rcases hcases with ⟨hplace, hin⟩ | ⟨-, ⟨hlost, -⟩ | ⟨rid', hplace, hfree, hmoved⟩⟩
  · refine ⟨old, rid, hschema, hids, hwf', hlength, rfl, hlive, hplace, ?_, ?_⟩
    · exact Function.update_self ..
    · rw [Function.update_idem, hin]
  · exact absurd (hfit old hlive) hlost
  · exact ⟨old, rid', hschema, hids, hwf', hlength, rfl, hlive, hplace, hfree, hmoved⟩

end TableInfo

/-! ## The run -/

open TableInfo Relocation

/-- Does the statement select a row? -/
def Selects (selected : Option (List RowId)) (rid : RowId) : Prop :=
  match selected with
  | none => True
  | some rids => rid ∈ rids

instance : (selected : Option (List RowId)) → DecidablePred (Selects selected)
  | none => fun _ => inferInstanceAs (Decidable True)
  | some rids => fun rid => inferInstanceAs (Decidable (rid ∈ rids))

/-- The new row of a round fits into a page. -/
def NewRowFits (a : Assignment) (s : TableInfo × ℕ) (rid : RowId) : Prop :=
  ∀ old, s.1.heap.live rid = some old → TableHeap.FitsPage (a.apply s.1.schema old)

/-- The new rows of the rounds for an assignment do. -/
def NewRowsFit (selected : Option (List RowId)) (rounds : ℕ) (s : TableInfo × ℕ)
    (a : Assignment) : Prop :=
  match selected with
  | some rids => Loops.ForEach.Meets (updateRowCounted a) (NewRowFits a) s rids
  | none =>
    Loops.Scan.Meets (fun s rid => nextRow s.1 rid) (updateRowCounted a) (NewRowFits a) rounds s
      s.1.heap.begin

/-- **All new rows fit into a page.** -/
def AllFit (t : TableInfo) (assignments : List Assignment) (selected : Option (List RowId))
    (rounds : ℕ) : Prop :=
  Loops.ForEach.Meets (updateRowsCounted selected rounds) (NewRowsFit selected rounds) (t, 0)
    assignments

/-- A state of the statement: the selected rows are somewhere in the heap, each
of them due to become what the assignments make of it, and the others are
where they were. -/
structure Run (t : TableInfo) (assignments : List Assignment) (selected : Option (List RowId))
    (due : RowId → List Field → List Field) (s : TableInfo × ℕ) : Prop where
  schema : s.1.schema = t.schema
  ids : s.1.ids = t.ids
  wellFormed : s.1.heap.WellFormed t.ids
  tracks : Tracks t.heap.live (Selects selected) (applyAll t.schema assignments) due s.1.heap.live

section Run

variable {t : TableInfo} {assignments done rest : List Assignment} {a : Assignment}
  {selected : Option (List RowId)} {due due' : RowId → List Field → List Field}
  {s s' : TableInfo × ℕ} {rid rid' : RowId} {old : List Field} {rounds : ℕ}

/-- The state in which the statement starts. -/
theorem run_self (hwf : t.heap.WellFormed t.ids)
    (hdue : ∀ rid row, Selects selected rid → due rid row = applyAll t.schema assignments row) :
    Run t assignments selected due (t, 0) where
  schema := rfl
  ids := rfl
  wellFormed := hwf
  tracks := tracks_self (fun rid row hrid _ => hdue rid row hrid)

/-- Another account of what is due. -/
theorem Run.imp (h : Run t assignments selected due s)
    (hdue : ∀ q x row, s.1.heap.live q = some x → due q x = applyAll t.schema assignments row →
      due' q x = applyAll t.schema assignments row) : Run t assignments selected due' s :=
  ⟨h.schema, h.ids, h.wellFormed,
    h.tracks.imp (fun q x row _ hx hgoal => hdue q x row hx hgoal)⟩

/-- Whatever is done to a row, all assignments together make the same of it. -/
theorem Run.forget (h : Run t assignments selected due s)
    (hdue : ∀ q x, ∃ bs, bs ⊆ assignments ∧ due q x = applyAll t.schema bs x) :
    Run t assignments selected (fun _ => applyAll t.schema assignments) s := by
  refine h.imp (fun q x row _ hgoal => ?_)
  obtain ⟨bs, hbs, heq⟩ := hdue q x
  calc applyAll t.schema assignments x
      = applyAll t.schema assignments (due q x) := by rw [heq, applyAll_of_subset hbs]
    _ = applyAll t.schema assignments row := by
      rw [hgoal, applyAll_of_subset (List.Subset.refl _)]

/-- A round that succeeds rewrites a row. -/
theorem Run.exists_rewrites (h : Run t assignments selected due s) (hfit : NewRowFits a s rid)
    (hround : updateRowCounted a s rid = some (s', true)) :
    ∃ old rid', Rewrites a s s' rid old rid' :=
  TableInfo.exists_rewrites (h.ids ▸ h.wellFormed) hfit hround

/-- **One round**: everything is due to become what it was before. -/
theorem Run.rewrites (h : Run t assignments selected due s) (hr : Rewrites a s s' rid old rid')
    (hmov : Movable t.heap.live (Selects selected) rid)
    (hnew : due' rid' (a.apply t.schema old) = due rid old)
    (hrest : ∀ q x, q ≠ rid → q ≠ rid' → s'.1.heap.live q = some x → due' q x = due q x) :
    Run t assignments selected due' s' := by
  have hlive := hr.live
  rw [h.schema] at hlive
  have hother : ∀ q, q ≠ rid → q ≠ rid' → s'.1.heap.live q = s.1.heap.live q :=
    fun q hq hq' => by rw [hlive, Function.update_of_ne hq', Function.update_of_ne hq]
  refine ⟨hr.schema.trans h.schema, hr.ids.trans h.ids, h.ids ▸ hr.wellFormed, ?_⟩
  exact h.tracks.move hr.got hmov hr.free hlive hnew
    (fun q x hq hq' _ hx => hrest q x hq hq' (by rw [hother q hq hq', hx]))

/-- **The rows in the end**, where nothing is left to be done. -/
theorem Run.perm_rows (h : Run t assignments selected (fun _ x => x) s)
    (hwf : t.heap.WellFormed t.ids) :
    (s.1.heap.rows.map Prod.snd).Perm (t.heap.rows.map (fun e =>
      if Selects selected e.1 then applyAll t.schema assignments e.2 else e.2)) :=
  h.tracks.perm hwf.lists_rows h.wellFormed.lists_rows

/-- A selected row on which something is left to be done. -/
def Unfinished (t : TableInfo) (assignments : List Assignment) (selected : Option (List RowId))
    (s : TableInfo × ℕ) (q : RowId) : Prop :=
  Movable t.heap.live (Selects selected) q ∧
    ∃ y, s.1.heap.live q = some y ∧ applyAll t.schema assignments y ≠ y

/-- The rows in the end, where something is left to be done on one. -/
theorem Unfinished.not_perm {q : RowId} (hq : Unfinished t assignments selected s q)
    (h : Run t assignments selected (fun _ => applyAll t.schema assignments) s)
    (hwf : t.heap.WellFormed t.ids) :
    ¬ (s.1.heap.rows.map Prod.snd).Perm (t.heap.rows.map (fun e =>
      if Selects selected e.1 then applyAll t.schema assignments e.2 else e.2)) := by
  obtain ⟨hmov, y, hy, hne⟩ := hq
  refine fun hperm => hne (h.tracks.goal_eq_of_perm (fun x => ?_) hwf.lists_rows
    h.wellFormed.lists_rows hperm hy hmov)
  exact applyAll_of_subset (List.Subset.refl _)

end Run

end MiniSql
