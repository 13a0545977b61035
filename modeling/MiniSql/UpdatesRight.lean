import MiniSql.RepeatedUpdates
import Mathlib.Data.Finset.Card

/-!
# When an update is right

`ExecuteUpdate` goes over the selected rows once for each assignment. Where it succeeds, the
rows are to be the old ones with the assignments applied to the selected ones, and with one
assignment the reported number is to be that of the selected rows.

A row that has left the selected row ids is met by no later round, and a scan that starts
with an empty first page meets no row at all. So the rows are right exactly if at the start of
each assignment nothing is left to be done to a row that is out of reach. A scan counts a row
again that has moved behind its place. `updatesRight_iff_reaches` says that nothing else goes
wrong.
-/

namespace MiniSql

open TableInfo Relocation

/-! ## What is right -/

/-- **The update is right**: the rows are the old ones, each selected one with all
assignments applied, and with one assignment the number reported is that of the selected
rows. -/
structure UpdatesRight (t : TableInfo) (assignments : List Assignment)
    (selected : Option (List RowId)) (s' : TableInfo × ℕ) : Prop where
  rows : (s'.1.heap.rows.map Prod.snd).Perm (t.heap.rows.map (fun e =>
    if Selects selected e.1 then applyAll t.schema assignments e.2 else e.2))
  count : ∀ a, assignments = [a] →
    s'.2 = (t.heap.rows.filter (fun e => Selects selected e.1)).length

/-- Without `WHERE` all rows are selected. -/
theorem filter_selects_none (rows : List (RowId × List Field)) :
    rows.filter (fun e => decide (Selects none e.1)) = rows :=
  List.filter_eq_self.mpr (fun _ _ => decide_eq_true trivial)

/-- A row that the rounds for the next assignment do not meet. -/
def OutOfReach (selected : Option (List RowId)) (s : TableInfo × ℕ) (q : RowId) : Prop :=
  match selected with
  | some rids => q ∉ rids
  | none => s.1.heap.begin = none

/-- Nothing is left to be done to a row that is out of reach. -/
def Reaches (t : TableInfo) (assignments : List Assignment) (selected : Option (List RowId))
    (s : TableInfo × ℕ) (_a : Assignment) : Prop :=
  ∀ q, Unfinished t assignments selected s q → ¬ OutOfReach selected s q

/-- The row of a round does not move behind its place. -/
def StaysBefore (a : Assignment) (s : TableInfo × ℕ) (rid : RowId) : Prop :=
  ∀ old rid', s.1.heap.live rid = some old →
    s.1.heap.place s.1.ids (a.apply s.1.schema old) rid = some rid' → ¬ s.1.ids.Before rid rid'

/-- **A scan counts right**: it starts if there are rows, and no row moves behind its
place. -/
structure CountsRight (t : TableInfo) (a : Assignment) (rounds : ℕ) : Prop where
  starts : t.heap.begin = none → t.heap.rows = []
  stays : Loops.Scan.Meets (fun s rid => nextRow s.1 rid) (updateRowCounted a) (StaysBefore a)
    rounds (t, 0) t.heap.begin

/-! ## What is pending -/

/-- What is left to be done, where the rounds for an assignment have still to meet the rows
at some places. -/
noncomputable def pending (s : Schema) (a : Assignment) (rest : List Assignment)
    (P : RowId → Prop) (q : RowId) (x : List Field) : List Field :=
  open Classical in if P q then applyAll s (a :: rest) x else applyAll s rest x

section Pending

variable {sch : Schema} {a : Assignment} {rest : List Assignment} {P : RowId → Prop} {q : RowId}
  {x : List Field}

theorem pending_of (h : P q) : pending sch a rest P q x = applyAll sch (a :: rest) x := if_pos h

theorem pending_of_not (h : ¬ P q) : pending sch a rest P q x = applyAll sch rest x := if_neg h

/-- On a row that has the assignment already. -/
theorem pending_apply : pending sch a rest P q (a.apply sch x) = applyAll sch (a :: rest) x := by
  by_cases h : P q
  · rw [pending_of h]
    show applyAll sch rest (a.apply sch (a.apply sch x)) = _
    rw [apply_apply]
    rfl
  · exact pending_of_not h

theorem pending_congr {P' : RowId → Prop} (h : P' q ↔ P q) :
    pending sch a rest P' q x = pending sch a rest P q x := by
  by_cases hP : P q
  · rw [pending_of hP, pending_of (h.mpr hP)]
  · rw [pending_of_not hP, pending_of_not (fun hc => hP (h.mp hc))]

end Pending

section Run

variable {t : TableInfo} {assignments done rest : List Assignment} {a : Assignment}
  {selected : Option (List RowId)} {s s' : TableInfo × ℕ} {rid rid' : RowId} {old : List Field}
  {P P' : RowId → Prop} {R W : List RowId} {pos : Option RowId} {n : ℕ}

/-- What is selected may be moved. -/
theorem movable_of_selects (h : Selects selected rid) :
    Movable t.heap.live (Selects selected) rid :=
  fun _ _ => h

/-- **The start of an assignment**, where every row that is not met has nothing left to be
done. -/
theorem Run.start (h : Run t assignments selected (fun _ => applyAll t.schema (a :: rest)) s)
    (has : assignments = done ++ a :: rest)
    (hP : ∀ q x, s.1.heap.live q = some x → ¬ P q → Movable t.heap.live (Selects selected) q →
      applyAll t.schema assignments x = x) :
    Run t assignments selected (pending t.schema a rest P) s := by
  refine ⟨h.schema, h.ids, h.wellFormed, h.tracks.imp (fun q x row hmov hx hgoal => ?_)⟩
  by_cases hq : P q
  · rw [pending_of hq]
    exact hgoal
  · have hall := hP q x hx hq hmov
    have hlast : applyAll t.schema (a :: rest) x = x := applyAll_eq_self_of_append (has ▸ hall)
    have hrest : applyAll t.schema rest x = x := by
      rw [has, List.append_cons] at hall
      exact applyAll_eq_self_of_append hall
    rw [pending_of_not hq, hrest, ← hlast]
    exact hgoal

/-- **One round** takes its place from what is pending. -/
theorem Run.round (h : Run t assignments selected (pending t.schema a rest P) s)
    (hfit : NewRowFits a s rid) (hsel : Selects selected rid) (hP : P rid)
    (hP' : ∀ q, q ≠ rid → (P' q ↔ P q))
    (hround : updateRowCounted a s rid = some (s', true)) :
    ∃ old rid', Rewrites a s s' rid old rid' ∧
      Run t assignments selected (pending t.schema a rest P') s' := by
  obtain ⟨old, rid', hr⟩ := h.exists_rewrites hfit hround
  refine ⟨old, rid', hr, h.rewrites hr (movable_of_selects hsel) ?_ (fun q x hq _ _ => ?_)⟩
  · rw [pending_apply, pending_of hP]
  · exact pending_congr (hP' q hq)

/-- One round, whatever is pending. -/
theorem Run.round_all (h : Run t assignments selected (fun _ => applyAll t.schema assignments) s)
    (ha : a ∈ assignments) (hsel : Selects selected rid) (hr : Rewrites a s s' rid old rid') :
    Run t assignments selected (fun _ => applyAll t.schema assignments) s' :=
  h.rewrites hr (movable_of_selects hsel) (applyAll_apply ha) (fun _ _ _ _ _ => rfl)

/-! ## The rounds over selected rows -/

/-- A round that succeeds is counted. -/
theorem count_updateRow (h : updateRowCounted a s rid = some (s', true)) : s'.2 = s.2 + 1 := by
  obtain ⟨⟨t', b⟩, -, hr⟩ := Option.map_eq_some_iff.mp h
  cases hr
  rfl

theorem count_forEach (h : Loops.forEach (updateRowCounted a) s W = some (s', true)) :
    s'.2 = s.2 + W.length := by
  induction W generalizing s with
  | nil =>
    cases h
    rfl
  | cons rid W ih =>
    obtain ⟨s₁, hround, hrest⟩ := Loops.forEach_cons_true h
    rw [ih hrest, count_updateRow hround, List.length_cons]
    omega

/-- **The rounds for an assignment** over selected rows make the assignment to each of
them. -/
theorem Run.forEach (h : Run t assignments (some R) (pending t.schema a rest (· ∈ W)) s)
    (hfit : Loops.ForEach.Meets (updateRowCounted a) (NewRowFits a) s W) (hsub : W ⊆ R)
    (hnodup : W.Nodup)
    (hloop : Loops.forEach (updateRowCounted a) s W = some (s', true)) :
    Run t assignments (some R) (fun _ => applyAll t.schema rest) s' := by
  induction W generalizing s with
  | nil =>
    cases hloop
    exact h.imp (fun q x row _ hgoal => (pending_of_not List.not_mem_nil).symm.trans hgoal)
  | cons rid W ih =>
    obtain ⟨s₁, hround, hrest⟩ := Loops.forEach_cons_true hloop
    obtain ⟨hrid, hnodup'⟩ := List.nodup_cons.mp hnodup
    have hsame : ∀ q, q ≠ rid → (q ∈ W ↔ q ∈ rid :: W) := fun q hq =>
      ⟨List.mem_cons_of_mem rid, fun hmem => (List.mem_cons.mp hmem).resolve_left hq⟩
    obtain ⟨_, _, -, h₁⟩ :=
      h.round hfit.1 (hsub List.mem_cons_self) List.mem_cons_self hsame hround
    exact ih h₁ (hfit.2 s₁ hround) (fun q hq => hsub (List.mem_cons_of_mem rid hq)) hnodup' hrest

/-- A row that is out of reach stays as it is. -/
theorem TableInfo.Rewrites.live_of_ne {q : RowId} {y : List Field}
    (hr : Rewrites a s s' rid old rid') (hq : q ≠ rid) (hy : s.1.heap.live q = some y) :
    s'.1.heap.live q = some y := by
  have hne : q ≠ rid' := by
    rintro rfl
    have hfree := hr.free
    rw [Function.update_of_ne hq, hy] at hfree
    cases hfree
  rw [hr.live, Function.update_of_ne hne, Function.update_of_ne hq, hy]

/-- **A row with something left to be done, out of reach**, is never reached again. -/
theorem Run.forEach_stays {q : RowId}
    (h : Run t assignments (some R) (fun _ => applyAll t.schema assignments) s)
    (hfit : Loops.ForEach.Meets (updateRowCounted a) (NewRowFits a) s W) (ha : a ∈ assignments)
    (hsub : W ⊆ R) (hq : Unfinished t assignments (some R) s q)
    (hout : q ∉ R)
    (hloop : Loops.forEach (updateRowCounted a) s W = some (s', true)) :
    Run t assignments (some R) (fun _ => applyAll t.schema assignments) s' ∧
      Unfinished t assignments (some R) s' q := by
  induction W generalizing s with
  | nil =>
    cases hloop
    exact ⟨h, hq⟩
  | cons rid W ih =>
    obtain ⟨s₁, hround, hrest⟩ := Loops.forEach_cons_true hloop
    have hrid : rid ∈ R := hsub List.mem_cons_self
    obtain ⟨old, rid', hr⟩ := h.exists_rewrites hfit.1 hround
    obtain ⟨hmov, y, hy, hne⟩ := hq
    have hsub' : W ⊆ R := fun r hmem => hsub (List.mem_cons_of_mem rid hmem)
    have hy' : s₁.1.heap.live q = some y := hr.live_of_ne (fun hc => hout (hc ▸ hrid)) hy
    exact ih (h.round_all ha hrid hr) (hfit.2 s₁ hround) hsub' ⟨hmov, y, hy', hne⟩ hrest

/-! ## The rounds of a scan -/

/-- The places at which a scan is or to which it will come. -/
def AtOrBehind (ids : PageIds) (pos : Option RowId) (q : RowId) : Prop :=
  match pos with
  | none => False
  | some r => q = r ∨ ids.Before r q

/-- The rows behind a place are those from the next row on. -/
theorem atOrBehind_iff {ids : PageIds} {L : RowId → Prop} {q : RowId}
    (h : ids.IsFirst (fun q => L q ∧ ids.Before rid q) pos) (hq : L q) :
    AtOrBehind ids pos q ↔ ids.Before rid q := by
  cases pos with
  | none => exact ⟨False.elim, fun hlt => h q ⟨hq, hlt⟩⟩
  | some r =>
    refine ⟨?_, fun hlt => h.2 q ⟨hq, hlt⟩⟩
    rintro (rfl | hlt)
    · exact h.1.2
    · exact h.1.2.trans hlt

/-- The next position after a round that has succeeded. -/
theorem TableInfo.Rewrites.isFirst_next (hwf : s.1.heap.WellFormed s.1.ids)
    (hr : Rewrites a s s' rid old rid') :
    s.1.ids.IsFirst (fun q => s'.1.heap.live q ≠ none ∧ s.1.ids.Before rid q)
      (nextRow s'.1 rid) := by
  obtain ⟨i, hi, hid⟩ := hwf.exists_page (Option.ne_none_iff_exists'.mpr ⟨old, hr.got⟩)
  exact hr.wellFormed.isFirst_next hid (hi.trans_le hr.length)

/-- **The rounds of a scan** make the assignment to each row from the position on. -/
theorem Run.scan (h : Run t assignments none (pending t.schema a rest (AtOrBehind t.ids pos)) s)
    (hfit : Loops.Scan.Meets (fun s rid => nextRow s.1 rid) (updateRowCounted a) (NewRowFits a)
      n s pos)
    (hloop : Loops.scan (fun s rid => nextRow s.1 rid) (updateRowCounted a) n s pos =
      some (s', true)) :
    Run t assignments none (fun _ => applyAll t.schema rest) s' := by
  induction n generalizing s pos with
  | zero =>
    cases pos with
    | none =>
      cases hloop
      exact h.imp (fun q x row _ hgoal => (pending_of_not id).symm.trans hgoal)
    | some rid => cases hloop
  | succ n ih =>
    cases pos with
    | none =>
      cases hloop
      exact h.imp (fun q x row _ hgoal => (pending_of_not id).symm.trans hgoal)
    | some rid =>
      obtain ⟨k, s₁, hk, hround, hrest⟩ := Loops.scan_some_true hloop
      cases hk
      have hsame : ∀ q, q ≠ rid → (t.ids.Before rid q ↔ AtOrBehind t.ids (some rid) q) :=
        fun q hq => ⟨.inr, fun hc => hc.resolve_left hq⟩
      obtain ⟨old, rid', hr, h₁⟩ := h.round hfit.1 trivial (.inl rfl) hsame hround
      have hnext := hr.isFirst_next (h.ids ▸ h.wellFormed)
      rw [h.ids] at hnext
      refine ih (h₁.imp (fun q x row hx hgoal => ?_)) (hfit.2 s₁ hround) hrest
      have hlive : s₁.1.heap.live q ≠ none := Option.ne_none_iff_exists'.mpr ⟨x, hx⟩
      rw [pending_congr (atOrBehind_iff hnext hlive)]
      exact hgoal

/-! ## The assignments -/

/-- **One assignment** is made to all selected rows, if nothing is left to be done out of
reach. -/
theorem Run.updateRows {rounds : ℕ}
    (h : Run t assignments selected (fun _ => applyAll t.schema (a :: rest)) s)
    (has : assignments = done ++ a :: rest) (hnodup : ∀ R, selected = some R → R.Nodup)
    (hfit : NewRowsFit selected rounds s a) (hreach : Reaches t assignments selected s a)
    (hpass : updateRowsCounted selected rounds s a = some (s', true)) :
    Run t assignments selected (fun _ => applyAll t.schema rest) s' := by
  have hdone : ∀ q x, s.1.heap.live q = some x → OutOfReach selected s q →
      Movable t.heap.live (Selects selected) q → applyAll t.schema assignments x = x := by
    intro q x hx hout hmov
    by_contra hne
    exact hreach q ⟨hmov, x, hx, hne⟩ hout
  cases selected with
  | some R =>
    have hstart := h.start (P := (· ∈ R)) has (fun q x hx hq hmov => hdone q x hx hq hmov)
    exact hstart.forEach hfit (List.Subset.refl R) (hnodup R rfl) hpass
  | none =>
    have hstart := h.start (P := AtOrBehind t.ids s.1.heap.begin) has (fun q x hx hq hmov => ?_)
    · exact hstart.scan hfit hpass
    · cases hbegin : s.1.heap.begin with
      | none => exact hdone q x hx hbegin hmov
      | some r =>
        have hfirst := h.wellFormed.isFirst_begin hbegin
        rw [hbegin] at hq
        exact absurd (hfirst.2 q (Option.ne_none_iff_exists'.mpr ⟨x, hx⟩)) hq

/-- A row with something left to be done, out of reach, stays so during an assignment. -/
theorem Run.updateRows_stays {rounds : ℕ} {q : RowId}
    (h : Run t assignments selected (fun _ => applyAll t.schema assignments) s)
    (hfit : NewRowsFit selected rounds s a) (ha : a ∈ assignments)
    (hq : Unfinished t assignments selected s q) (hout : OutOfReach selected s q)
    (hpass : updateRowsCounted selected rounds s a = some (s', true)) :
    Run t assignments selected (fun _ => applyAll t.schema assignments) s' ∧
      Unfinished t assignments selected s' q ∧ OutOfReach selected s' q := by
  cases selected with
  | some R =>
    obtain ⟨h', hq'⟩ := h.forEach_stays hfit ha (List.Subset.refl R) hq hout hpass
    exact ⟨h', hq', hout⟩
  | none =>
    have hbegin : s.1.heap.begin = none := hout
    unfold updateRowsCounted at hpass
    rw [hbegin] at hpass
    have hsame : s = s' := by
      cases rounds <;> exact congrArg Prod.fst (Option.some.inj hpass)
    exact hsame ▸ ⟨h, hq, hout⟩

/-- And during the rest of the statement. -/
theorem Run.executeUpdate_stays {rounds : ℕ} {q : RowId}
    (h : Run t assignments selected (fun _ => applyAll t.schema assignments) s)
    (hfit : Loops.ForEach.Meets (updateRowsCounted selected rounds) (NewRowsFit selected rounds)
      s rest)
    (hsub : rest ⊆ assignments)
    (hq : Unfinished t assignments selected s q) (hout : OutOfReach selected s q)
    (hrun : Loops.forEach (updateRowsCounted selected rounds) s rest = some (s', true)) :
    Run t assignments selected (fun _ => applyAll t.schema assignments) s' ∧
      Unfinished t assignments selected s' q := by
  induction rest generalizing s with
  | nil =>
    cases hrun
    exact ⟨h, hq⟩
  | cons a rest ih =>
    obtain ⟨s₁, hpass, hrest⟩ := Loops.forEach_cons_true hrun
    obtain ⟨h₁, hq₁, hout₁⟩ := h.updateRows_stays hfit.1 (hsub List.mem_cons_self) hq hout hpass
    exact ih h₁ (hfit.2 s₁ hpass) (fun b hb => hsub (List.mem_cons_of_mem a hb)) hq₁ hout₁ hrest

/-- **The rows are right** exactly if no assignment leaves something to be done to a row that
is out of reach. -/
theorem Run.perm_iff {rounds : ℕ}
    (h : Run t assignments selected (fun _ => applyAll t.schema rest) s)
    (has : assignments = done ++ rest) (hnodup : ∀ R, selected = some R → R.Nodup)
    (hwf : t.heap.WellFormed t.ids)
    (hfit : Loops.ForEach.Meets (updateRowsCounted selected rounds) (NewRowsFit selected rounds)
      s rest)
    (hrun : Loops.forEach (updateRowsCounted selected rounds) s rest = some (s', true)) :
    (s'.1.heap.rows.map Prod.snd).Perm (t.heap.rows.map (fun e =>
        if Selects selected e.1 then applyAll t.schema assignments e.2 else e.2)) ↔
      Loops.ForEach.Meets (updateRowsCounted selected rounds) (Reaches t assignments selected)
        s rest := by
  induction rest generalizing s done with
  | nil =>
    cases hrun
    exact iff_of_true (h.perm_rows hwf) trivial
  | cons a rest ih =>
    obtain ⟨s₁, hpass, hrest⟩ := Loops.forEach_cons_true hrun
    rw [Loops.ForEach.meets_cons hpass]
    have hsub : a :: rest ⊆ assignments := has ▸ List.subset_append_right done (a :: rest)
    by_cases hreach : Reaches t assignments selected s a
    · have h₁ := h.updateRows has hnodup hfit.1 hreach hpass
      rw [and_iff_right hreach]
      have has' : assignments = (done ++ [a]) ++ rest := by rw [has, List.append_cons]
      exact ih h₁ has' (hfit.2 s₁ hpass) hrest
    · refine iff_of_false (fun hperm => ?_) (fun hc => hreach hc.1)
      obtain ⟨q, hleft⟩ := not_forall.mp hreach
      obtain ⟨hq, hout⟩ := Classical.not_imp.mp hleft
      have hall := h.forget (fun _ _ => ⟨a :: rest, hsub, rfl⟩)
      obtain ⟨h', hq'⟩ := hall.executeUpdate_stays hfit hsub hq (not_not.mp hout) hrun
      exact hq'.not_perm h' hwf hperm

end Run

/-! ## The count -/

namespace TableHeap

variable {ids : PageIds} {h : TableHeap} {q : RowId}

/-- The row ids of the live rows. -/
def liveRids (h : TableHeap) : Finset RowId := (h.rows.map Prod.fst).toFinset

theorem WellFormed.mem_liveRids (hwf : h.WellFormed ids) : q ∈ h.liveRids ↔ h.live q ≠ none := by
  rw [liveRids, List.mem_toFinset, List.mem_map, Option.ne_none_iff_exists']
  constructor
  · rintro ⟨⟨r, row⟩, he, rfl⟩
    exact ⟨row, (hwf.lists_rows.2 r row).mp he⟩
  · rintro ⟨row, hrow⟩
    exact ⟨(q, row), (hwf.lists_rows.2 q row).mpr hrow, rfl⟩

theorem WellFormed.card_liveRids (hwf : h.WellFormed ids) : h.liveRids.card = h.rows.length := by
  rw [liveRids, List.toFinset_card_of_nodup hwf.lists_rows.1, List.length_map]

/-- The selected rows of a list of live rows are as many as the list is long. -/
theorem WellFormed.length_selected (hwf : h.WellFormed ids) {R : List RowId} (hnodup : R.Nodup)
    (hlive : ∀ rid ∈ R, h.live rid ≠ none) :
    (h.rows.filter (fun e => e.1 ∈ R)).length = R.length := by
  have hfst : ((h.rows.filter (fun e => e.1 ∈ R)).map Prod.fst).Perm R := by
    refine (List.perm_ext_iff_of_nodup ?_ hnodup).mpr (fun q => ?_)
    · exact hwf.lists_rows.1.sublist (List.filter_sublist.map Prod.fst)
    · rw [List.mem_map]
      constructor
      · rintro ⟨e, he, rfl⟩
        exact of_decide_eq_true (List.mem_filter.mp he).2
      · intro hq
        obtain ⟨row, hrow⟩ := Option.ne_none_iff_exists'.mp (hlive q hq)
        exact ⟨(q, row), List.mem_filter.mpr ⟨(hwf.lists_rows.2 q row).mpr hrow,
          decide_eq_true hq⟩, rfl⟩
  rw [← hfst.length_eq, List.length_map]

end TableHeap

section Count

open scoped Classical in
/-- The live rows from a position of a scan on. -/
noncomputable def ahead (ids : PageIds) (h : TableHeap) (pos : Option RowId) : Finset RowId :=
  h.liveRids.filter (AtOrBehind ids pos)

variable {a : Assignment} {s s' : TableInfo × ℕ} {rid rid' : RowId} {old : List Field}
  {pos : Option RowId} {n : ℕ}

theorem card_ahead_none {ids : PageIds} {h : TableHeap} : (ahead ids h none).card = 0 := by
  classical
  rw [Finset.card_eq_zero, ahead]
  exact Finset.filter_false_of_mem (fun q _ => id)

open scoped Classical in
/-- The live rows behind a place. -/
noncomputable def behind (ids : PageIds) (h : TableHeap) (rid : RowId) : Finset RowId :=
  h.liveRids.filter (ids.Before rid)

theorem mem_behind {ids : PageIds} {h : TableHeap} (hwf : h.WellFormed ids) {q : RowId} :
    q ∈ behind ids h rid ↔ h.live q ≠ none ∧ ids.Before rid q := by
  classical
  rw [behind, Finset.mem_filter, hwf.mem_liveRids]

/-- The rows from a live row on are that row and those behind it. -/
theorem card_ahead_some {ids : PageIds} {h : TableHeap} (hwf : h.WellFormed ids)
    (hlive : h.live rid ≠ none) : (ahead ids h (some rid)).card = (behind ids h rid).card + 1 := by
  classical
  have hrid : rid ∉ behind ids h rid := fun hmem => ((mem_behind hwf).mp hmem).2.irrefl
  have hahead : ahead ids h (some rid) = insert rid (behind ids h rid) := by
    ext q
    rw [Finset.mem_insert, mem_behind hwf, ahead, Finset.mem_filter, hwf.mem_liveRids]
    show h.live q ≠ none ∧ (q = rid ∨ ids.Before rid q) ↔ _
    rw [and_or_left, and_iff_right_of_imp (fun hq : q = rid => hq ▸ hlive)]
  rw [hahead, Finset.card_insert_of_notMem hrid]

open scoped Classical in
/-- **A round counts a row**, and has another one ahead if the row has moved behind its
place. -/
theorem TableInfo.Rewrites.card_ahead (hwf : s.1.heap.WellFormed s.1.ids)
    (hr : Rewrites a s s' rid old rid') :
    (ahead s.1.ids s'.1.heap (nextRow s'.1 rid)).card + 1 =
      (ahead s.1.ids s.1.heap (some rid)).card + if s.1.ids.Before rid rid' then 1 else 0 := by
  have hgot : s.1.heap.live rid ≠ none := Option.ne_none_iff_exists'.mpr ⟨old, hr.got⟩
  have hmem : ∀ q, q ∈ ahead s.1.ids s'.1.heap (nextRow s'.1 rid) ↔
      s.1.ids.Before rid q ∧ (q = rid' ∨ q ∈ behind s.1.ids s.1.heap rid) := by
    intro q
    rw [ahead, Finset.mem_filter, hr.wellFormed.mem_liveRids, mem_behind hwf,
      and_congr_right (fun hlive => atOrBehind_iff (hr.isFirst_next hwf) hlive), and_comm]
    refine and_congr_right (fun hlt => ?_)
    rw [and_iff_left hlt, hr.live]
    by_cases hq' : q = rid'
    · rw [hq', Function.update_self]
      exact iff_of_true (Option.some_ne_none _) (.inl rfl)
    · have hq : q ≠ rid := fun hc => (hc ▸ hlt).irrefl
      rw [Function.update_of_ne hq', Function.update_of_ne hq, or_iff_right hq']
  rw [card_ahead_some hwf hgot]
  by_cases hlt : s.1.ids.Before rid rid'
  · have hnew : rid' ∉ behind s.1.ids s.1.heap rid := by
      intro hc
      have hfree := hr.free
      rw [Function.update_of_ne (fun hrr => (hrr ▸ hlt).irrefl)] at hfree
      exact ((mem_behind hwf).mp hc).1 hfree
    have hahead : ahead s.1.ids s'.1.heap (nextRow s'.1 rid) =
        insert rid' (behind s.1.ids s.1.heap rid) := by
      ext q
      rw [hmem, Finset.mem_insert]
      refine and_iff_right_of_imp (fun hq => hq.elim (fun hq => hq ▸ hlt) (fun hq => ?_))
      exact ((mem_behind hwf).mp hq).2
    rw [hahead, Finset.card_insert_of_notMem hnew, if_pos hlt]
  · have hahead : ahead s.1.ids s'.1.heap (nextRow s'.1 rid) = behind s.1.ids s.1.heap rid := by
      ext q
      rw [hmem]
      constructor
      · rintro ⟨hq, rfl | hq'⟩
        · exact absurd hq hlt
        · exact hq'
      · exact fun hq => ⟨((mem_behind hwf).mp hq).2, .inr hq⟩
    rw [hahead, if_neg hlt, Nat.add_zero]

/-- Where the row of a round goes decides whether it moves behind its place. -/
theorem TableInfo.Rewrites.staysBefore_iff (hr : Rewrites a s s' rid old rid') :
    StaysBefore a s rid ↔ ¬ s.1.ids.Before rid rid' := by
  refine ⟨fun h => h old rid' hr.got hr.place, fun h old' rid'' hgot hplace => ?_⟩
  cases hr.got.symm.trans hgot
  cases hr.place.symm.trans hplace
  exact h

/-- **A scan counts** all rows from its position on, and exactly these if no row moves behind
its place. -/
theorem Run.count_scan {t : TableInfo} {assignments : List Assignment}
    (h : Run t assignments none (fun _ => applyAll t.schema assignments) s)
    (hfit : Loops.Scan.Meets (fun s rid => nextRow s.1 rid) (updateRowCounted a) (NewRowFits a)
      n s pos)
    (ha : a ∈ assignments)
    (hloop : Loops.scan (fun s rid => nextRow s.1 rid) (updateRowCounted a) n s pos =
      some (s', true)) :
    s.2 + (ahead t.ids s.1.heap pos).card ≤ s'.2 ∧
      (s'.2 = s.2 + (ahead t.ids s.1.heap pos).card ↔
        Loops.Scan.Meets (fun s rid => nextRow s.1 rid) (updateRowCounted a) (StaysBefore a)
          n s pos) := by
  induction n generalizing s pos with
  | zero =>
    cases pos with
    | none =>
      cases hloop
      rw [card_ahead_none]
      exact ⟨le_rfl, iff_of_true rfl trivial⟩
    | some rid => cases hloop
  | succ n ih =>
    cases pos with
    | none =>
      cases hloop
      rw [card_ahead_none]
      exact ⟨le_rfl, iff_of_true rfl trivial⟩
    | some rid =>
      obtain ⟨k, s₁, hk, hround, hrest⟩ := Loops.scan_some_true hloop
      cases hk
      obtain ⟨old, rid', hr⟩ := h.exists_rewrites hfit.1 hround
      obtain ⟨hle, hiff⟩ := ih (h.round_all ha trivial hr) (hfit.2 s₁ hround) hrest
      have hcard := hr.card_ahead (h.ids ▸ h.wellFormed)
      have hcount := count_updateRow hround
      rw [Loops.Scan.meets_succ hround, hr.staysBefore_iff, ← hiff]
      dsimp only at hle hcard ⊢
      rw [h.ids] at hcard ⊢
      by_cases hlt : t.ids.Before rid rid'
      · rw [if_pos hlt] at hcard
        exact ⟨by omega, iff_of_false (by omega) (fun hc => hc.1 hlt)⟩
      · rw [if_neg hlt] at hcard
        rw [and_iff_right hlt]
        omega

/-- **The count of a scan** is right exactly if it starts where there are rows and counts
none of them again. -/
theorem count_executeUpdate {t : TableInfo} {rounds : ℕ} (hwf : t.heap.WellFormed t.ids)
    (hfit : AllFit t [a] none rounds)
    (hpass : updateRowsCounted none rounds (t, 0) a = some (s', true)) :
    s'.2 = t.heap.rows.length ↔ CountsRight t a rounds := by
  have hrun : Run t [a] none (fun _ => applyAll t.schema [a]) (t, 0) :=
    run_self hwf (fun _ _ _ => rfl)
  obtain ⟨-, hiff⟩ := hrun.count_scan hfit.1 List.mem_cons_self hpass
  have hparts : CountsRight t a rounds ↔ (t.heap.begin = none → t.heap.rows = []) ∧
      s'.2 = 0 + (ahead t.ids t.heap t.heap.begin).card :=
    ⟨fun h => ⟨h.starts, hiff.mpr h.stays⟩, fun h => ⟨h.1, hiff.mp h.2⟩⟩
  rw [hparts, Nat.zero_add]
  cases hbegin : t.heap.begin with
  | none =>
    have hcount : s'.2 = 0 := by
      unfold updateRowsCounted at hpass
      rw [hbegin] at hpass
      cases rounds <;> cases hpass <;> rfl
    rw [card_ahead_none, hcount, and_iff_left rfl, imp_iff_right rfl, eq_comm,
      List.length_eq_zero_iff]
  | some r =>
    have hall : ahead t.ids t.heap (some r) = t.heap.liveRids := by
      classical
      refine Finset.filter_true_of_mem (fun q hq => ?_)
      exact (hwf.isFirst_begin hbegin).2 q (hwf.mem_liveRids.mp hq)
    rw [hall, hwf.card_liveRids, and_iff_right nofun]

end Count

/-- **The update is right** exactly if no assignment finds something left to be done to a row
that is out of its reach, and the scan for a single assignment starts where there are rows and
moves no row behind its place. -/
theorem updatesRight_iff_reaches {t : TableInfo} {assignments : List Assignment}
    {selected : Option (List RowId)} {rounds : ℕ} {s' : TableInfo × ℕ}
    (hwf : t.heap.WellFormed t.ids)
    (hsel : ∀ R, selected = some R → R.Nodup ∧ ∀ rid ∈ R, t.heap.live rid ≠ none)
    (hfit : AllFit t assignments selected rounds)
    (hrun : t.executeUpdateCounted assignments selected rounds = some (s', true)) :
    UpdatesRight t assignments selected s' ↔
      Loops.ForEach.Meets (updateRowsCounted selected rounds) (Reaches t assignments selected)
          (t, 0) assignments ∧
        (selected = none → ∀ a, assignments = [a] → CountsRight t a rounds) := by
  have hstart : Run t assignments selected (fun _ => applyAll t.schema assignments) (t, 0) :=
    run_self hwf (fun _ _ _ => rfl)
  have hsplit : assignments = [] ++ assignments := rfl
  have hrows := hstart.perm_iff hsplit (fun R hR => (hsel R hR).1) hwf hfit hrun
  have hcount : (∀ a, assignments = [a] →
      s'.2 = (t.heap.rows.filter (fun e => Selects selected e.1)).length) ↔
        (selected = none → ∀ a, assignments = [a] → CountsRight t a rounds) := by
    cases selected with
    | some R =>
      refine iff_of_true (fun a ha => ?_) nofun
      subst ha
      obtain ⟨hnodup, hlive⟩ := hsel R rfl
      have hpass := Loops.forEach_singleton.mp hrun
      rw [count_forEach hpass, Nat.zero_add]
      exact (hwf.length_selected hnodup hlive).symm
    | none =>
      rw [imp_iff_right rfl]
      refine forall_congr' (fun a => imp_congr_right (fun ha => ?_))
      subst ha
      rw [← count_executeUpdate hwf hfit (Loops.forEach_singleton.mp hrun)]
      rw [filter_selects_none]
  constructor
  · exact fun h => ⟨hrows.mp h.rows, hcount.mp h.count⟩
  · exact fun h => ⟨hrows.mpr h.1, hcount.mpr h.2⟩

/-! ## Where all new rows fit -/

/-- A round that fails leaves the table as it is. -/
theorem fst_updateRow_false {a : Assignment} {s s' : TableInfo × ℕ} {rid : RowId}
    (h : updateRowCounted a s rid = some (s', false)) : s.1 = s'.1 := by
  obtain ⟨⟨t', b⟩, hround, hr⟩ := Option.map_eq_some_iff.mp h
  cases hr
  rcases updateRow_eq_some hround with ⟨-, hsame, -⟩ | ⟨hb, -⟩
  · exact hsame.symm
  · cases hb

/-- **New rows of a kind** that the assignments keep and that fits into a page all fit. -/
theorem allFit_of_kind {t : TableInfo} {assignments : List Assignment} {Kind : List Field → Prop}
    (hwf : t.heap.WellFormed t.ids) (hrows : ∀ q row, t.heap.live q = some row → Kind row)
    (hkind : ∀ a ∈ assignments, ∀ row, Kind row →
      TableHeap.FitsPage (a.apply t.schema row) ∧ Kind (a.apply t.schema row))
    (selected : Option (List RowId)) (rounds : ℕ) : AllFit t assignments selected rounds := by
  let I : TableInfo × ℕ → Prop := fun s =>
    s.1.schema = t.schema ∧ s.1.ids = t.ids ∧ s.1.heap.WellFormed t.ids ∧
      ∀ q row, s.1.heap.live q = some row → Kind row
  have hround : ∀ a ∈ assignments, ∀ s rid, I s →
      NewRowFits a s rid ∧ ∀ s' b, updateRowCounted a s rid = some (s', b) → I s' := by
    rintro a ha s rid ⟨hschema, hids, hwf, hrows⟩
    have hfit : NewRowFits a s rid := fun old hold =>
      hschema ▸ (hkind a ha old (hrows rid old hold)).1
    refine ⟨hfit, fun s' b hs' => ?_⟩
    cases b with
    | false =>
      show _ ∧ _
      rw [← fst_updateRow_false hs']
      exact ⟨hschema, hids, hwf, hrows⟩
    | true =>
      obtain ⟨old, rid', hr⟩ := TableInfo.exists_rewrites (hids ▸ hwf) hfit hs'
      refine ⟨hr.schema.trans hschema, hr.ids.trans hids, hids ▸ hr.wellFormed, fun q row hq => ?_⟩
      rw [hr.live] at hq
      by_cases hq' : q = rid'
      · rw [hq', Function.update_self, hschema] at hq
        exact Option.some.inj hq ▸ (hkind a ha old (hrows rid old hr.got)).2
      · rw [Function.update_of_ne hq'] at hq
        by_cases hqr : q = rid
        · rw [hqr, Function.update_self] at hq
          cases hq
        · rw [Function.update_of_ne hqr] at hq
          exact hrows q row hq
  refine Loops.ForEach.meets_of_invariant (I := I) (fun s a ha hs => ?_) ⟨rfl, rfl, hwf, hrows⟩
  have hround' : ∀ s rid, I s →
      NewRowFits a s rid ∧ ∀ s', updateRowCounted a s rid = some (s', true) → I s' :=
    fun s rid hs => (hround a ha s rid hs).imp_right (fun hkeeps s' => hkeeps s' true)
  have hbody : ∀ s rid s' b, I s → NewRowFits a s rid → updateRowCounted a s rid = some (s', b) →
      I s' := fun s rid s' b hs _ => (hround a ha s rid hs).2 s' b
  cases selected with
  | some R =>
    have hmeets : NewRowsFit (some R) rounds s a :=
      Loops.ForEach.meets_of_invariant (fun s rid _ => hround' s rid) hs
    exact ⟨hmeets, fun s' => Loops.forEach_invariant hbody hs hmeets⟩
  | none =>
    have hmeets : NewRowsFit none rounds s a := Loops.Scan.meets_of_invariant hround' hs _ _
    exact ⟨hmeets, fun s' => Loops.scan_invariant hbody hs hmeets⟩

/-! ## A row that is counted again -/

/-- A table with a column `c char(2000)` and one page that is nearly full. -/
def fullPage : TableInfo :=
  ⟨⟨[⟨[99], .kTypeChar, 2000, 0, false, false, TypeId.char_supported⟩]⟩, pagesFrom2,
    ⟨[⟨2, [.live [.chars [97]], .live [.chars (List.replicate 1900 98)],
      .live [.chars (List.replicate 1900 98)]]⟩]⟩, []⟩

/-- `c = 'cc…c'`, with 300 characters. -/
def setLong : Assignment := ⟨[99], .string (List.replicate 300 99)⟩

end MiniSql
