import MiniSql.TableScan
import MiniSql.UpdatesRight

/-!
# Updates that disturb no row

Whether `ExecuteUpdate` is right, said of the table before the statement. As long as every new
row fits into the place of the old one, the heap after some rounds is the heap before with the
rows replaced (`TableInfo.heapAfter`), so it is known beforehand which row is the first one that
moves.

A statement of which no row moves before its last assignment is right (`Undisturbed`). A scan
also is where rows move, if some row of the first page is known to stay there, since then each
assignment starts. Where the scan does not start, where a row leaves the selected row ids with
something left to be done, or where the only scan moves a row behind its place, the statement
is wrong (`updatesRight_of_undisturbed`).
-/

namespace MiniSql

open TableInfo Relocation

/-! ## The condition -/

/-- The row ids that a statement goes over, for each assignment. -/
def rowIds (t : TableInfo) (selected : Option (List RowId)) : List RowId :=
  selected.getD (t.heap.rows.map Prod.fst)

/-- **The rounds move no row**: each new row fits into the place of the old one, in the page
that the rounds before it leave. -/
def StaysInPlace (t : TableInfo) (rs : List (Assignment × RowId)) : Prop :=
  ∀ pre a rid post, rs = pre ++ (a, rid) :: post → ∀ old,
    (t.heapAfter pre).live rid = some old → (t.heapAfter pre).Fits (a.apply t.schema old) rid

theorem StaysInPlace.of_append {t : TableInfo} {rs rs' : List (Assignment × RowId)}
    (h : StaysInPlace t (rs ++ rs')) : StaysInPlace t rs := by
  rintro pre a rid post rfl old hold
  exact h pre a rid (post ++ rs') (by rw [List.append_assoc, List.cons_append]) old hold

/-- No assignment makes the row larger, whichever of them it already has. -/
def NeverGrows (t : TableInfo) (as : List Assignment) (row : List Field) : Prop :=
  ∀ bs, bs ⊆ as → ∀ a ∈ as,
    Sized.size (a.apply t.schema (applyAll t.schema bs row)) ≤
      Sized.size (applyAll t.schema bs row)

/-- **The first page keeps a row**: no row moves until an assignment starts, or until it has come
to the row, and the assignments from there on, the last one apart, do not make the row larger. -/
inductive FirstPageKeeps (t : TableInfo) : List Assignment → Prop
  | fromStart {done rest : List Assignment} {q : RowId} {row : List Field}
      (hpage : q.pageId = t.ids.id 0)
      (hstays : StaysInPlace t (roundsOf done (rowIds t none)))
      (hlive : (t.heapAfter (roundsOf done (rowIds t none))).live q = some row)
      (hnever : NeverGrows t rest.dropLast row) : FirstPageKeeps t (done ++ rest)
  | fromRow {done rest : List Assignment} {a : Assignment} {seen es : List (RowId × List Field)}
      {e : RowId × List Field} {row : List Field} {rs : List (Assignment × RowId)}
      (hpage : e.1.pageId = t.ids.id 0) (hrows : t.heap.rows = seen ++ e :: es)
      (hrounds : rs = roundsOf done (rowIds t none) ++ (seen ++ [e]).map (fun e => (a, e.1)))
      (hstays : StaysInPlace t rs) (hlive : (t.heapAfter rs).live e.1 = some row)
      (hnever : NeverGrows t rest.dropLast row) : FirstPageKeeps t (done ++ a :: rest)

/-- **No row is disturbed**: a scan starts where there are rows, before the last assignment no
row moves (or a scan keeps a row in the first page), and a single scan moves no row at all. -/
structure Undisturbed (t : TableInfo) (assignments : List Assignment)
    (selected : Option (List RowId)) : Prop where
  starts : selected = none → t.heap.StartsLive
  stays : StaysInPlace t (roundsOf assignments.dropLast (rowIds t selected)) ∨
    selected = none ∧ FirstPageKeeps t assignments
  counts : selected = none → assignments.length = 1 →
    StaysInPlace t (roundsOf assignments (rowIds t selected))

/-- **New rows that are no larger** move no row. -/
theorem staysInPlace_of_kind {t : TableInfo} {rs : List (Assignment × RowId)}
    {Kind : List Field → Prop} (hrows : ∀ q row, t.heap.live q = some row → Kind row)
    (hkind : ∀ r ∈ rs, ∀ row, Kind row → Kind (r.1.apply t.schema row) ∧
      Sized.size (r.1.apply t.schema row) ≤ Sized.size row) : StaysInPlace t rs := by
  intro pre a rid post hrs old hold
  have hsteps : ∀ as : List Assignment, (∀ b ∈ as, ∃ q, (b, q) ∈ rs) → ∀ row, Kind row →
      Kind (applyAll t.schema as row) := by
    intro as
    induction as with
    | nil => exact fun _ row hrow => hrow
    | cons b as ih =>
      intro has row hrow
      obtain ⟨⟨q, hq⟩, has⟩ := List.forall_mem_cons.mp has
      exact ih has _ (hkind (b, q) hq row hrow).1
  have hold' := hold
  rw [heapAfter, TableHeap.live_mapRows] at hold'
  obtain ⟨row, hrow, rfl⟩ := Option.map_eq_some_iff.mp hold'
  have hmem : (a, rid) ∈ rs := hrs ▸ List.mem_append_right pre List.mem_cons_self
  refine TableHeap.fits_of_size_le hold (hkind (a, rid) hmem _ ?_).2
  refine hsteps _ (fun b hb => ?_) row (hrows rid row hrow)
  obtain ⟨r, hr, rfl⟩ := List.mem_map.mp hb
  exact ⟨r.2, hrs ▸ List.mem_append_left _ (List.mem_of_mem_filter hr)⟩

/-! ## States without a moved row -/

/-- The state after some rounds that have moved no row. -/
structure InPlaceAfter (t : TableInfo) (rs : List (Assignment × RowId)) (s : TableInfo × ℕ) :
    Prop where
  schema : s.1.schema = t.schema
  ids : s.1.ids = t.ids
  heap : s.1.heap = t.heapAfter rs
  count : s.2 = rs.length

section Rounds

variable {t : TableInfo} {assignments done rest : List Assignment} {a : Assignment}
  {selected : Option (List RowId)} {s s' : TableInfo × ℕ} {rid : RowId} {R : List RowId}
  {rs post : List (Assignment × RowId)} {seen es : List (RowId × List Field)} {n rounds : ℕ}

theorem inPlaceAfter_nil : InPlaceAfter t [] (t, 0) :=
  ⟨rfl, rfl, (heapAfter_nil t).symm, rfl⟩

theorem InPlaceAfter.wellFormed (h : InPlaceAfter t rs s) (hwf : t.heap.WellFormed t.ids) :
    s.1.heap.WellFormed s.1.ids := by
  rw [h.heap, h.ids]
  exact hwf.mapRows

theorem InPlaceAfter.shape (h : InPlaceAfter t rs s) : s.1.heap.shape = t.heap.shape := by
  rw [h.heap, heapAfter, TableHeap.shape_mapRows]

/-- **One round** whose new row fits. -/
theorem InPlaceAfter.round (h : InPlaceAfter t rs s) (hwf : t.heap.WellFormed t.ids)
    (hfit : ∀ old, (t.heapAfter rs).live rid = some old →
      (t.heapAfter rs).Fits (a.apply t.schema old) rid)
    (hround : updateRowCounted a s rid = some (s', true)) :
    InPlaceAfter t (rs ++ [(a, rid)]) s' := by
  obtain ⟨⟨t', b⟩, hup, hr⟩ := Option.map_eq_some_iff.mp hround
  cases hr
  rcases updateRow_eq_some hup with
    ⟨⟨⟩, -⟩ | ⟨-, old, new, hlive, hnew, -, ⟨hschema, hids⟩, -, b', htuple⟩
  cases eq_apply_of_newRow hnew
  have hwf' := h.wellFormed hwf
  obtain ⟨p, hp, -⟩ := TableHeap.exists_fetchPage hlive
  have hrid : rid ≠ invalidRowId :=
    hwf'.ne_invalid (List.mem_of_find?_eq_some hp) (TableHeap.pageId_of_fetchPage hp)
  have hfits : s.1.heap.Fits (a.apply s.1.schema old) rid := by
    rw [h.heap, h.schema]
    exact hfit old (h.heap ▸ hlive)
  have hpos : Sized.size (a.apply s.1.schema old) ≠ 0 := by
    intro hzero
    rw [TableHeap.updateTuple, hp] at htuple
    dsimp only at htuple
    rw [if_pos (.inr hzero)] at htuple
    cases htuple
  obtain ⟨p, hp, hs, hplace⟩ := TableHeap.updateTuple_inPlace s.1.ids hlive hrid hfits hpos
  rw [hplace] at htuple
  have hheap : t'.heap = s.1.heapAfter [(a, rid)] := by
    rw [heapAfter_singleton, ← hwf'.setSlots_set hp hs (a.apply s.1.schema)]
    exact (congrArg Prod.fst (Option.some.inj htuple)).symm
  refine ⟨hschema.trans h.schema, hids.trans h.ids, ?_, ?_⟩
  · rw [hheap]
    exact heapAfter_append h.schema h.heap
  · rw [List.length_append, ← h.count]
    rfl

/-- **The rounds over selected rows.** -/
theorem InPlaceAfter.forEach (h : InPlaceAfter t rs s) (hwf : t.heap.WellFormed t.ids)
    (hall : StaysInPlace t (rs ++ (R.map (fun rid => (a, rid)) ++ post)))
    (hloop : Loops.forEach (updateRowCounted a) s R = some (s', true)) :
    InPlaceAfter t (rs ++ R.map (fun rid => (a, rid))) s' := by
  induction R generalizing s rs with
  | nil =>
    cases hloop
    rwa [List.map_nil, List.append_nil]
  | cons rid R ih =>
    obtain ⟨s₁, hround, hrest⟩ := Loops.forEach_cons_true hloop
    have h₁ := h.round hwf (hall rs a rid _ rfl) hround
    rw [List.map_cons, List.cons_append, List.append_cons] at hall
    rw [List.map_cons, List.append_cons]
    exact ih h₁ hall hrest

/-- **The rounds of a scan**, from a row on. -/
theorem InPlaceAfter.scan (h : InPlaceAfter t rs s) (hwf : t.heap.WellFormed t.ids)
    (hrows : t.heap.rows = seen ++ es)
    (hall : StaysInPlace t (rs ++ (es.map (fun e => (a, e.1)) ++ post)))
    (hloop : Loops.scan (fun s rid => nextRow s.1 rid) (updateRowCounted a) n s
      (es.head?.map Prod.fst) = some (s', true)) :
    InPlaceAfter t (rs ++ es.map (fun e => (a, e.1))) s' := by
  induction es generalizing s rs seen n with
  | nil =>
    have hsame : s = s' := by
      cases n <;> exact congrArg Prod.fst (Option.some.inj hloop)
    rwa [← hsame, List.map_nil, List.append_nil]
  | cons e es ih =>
    obtain ⟨k, s₁, -, hround, hrest⟩ := Loops.scan_some_true hloop
    have h₁ := h.round hwf (hall rs a e.1 _ rfl) hround
    have hnext : nextRow s₁.1 e.1 = es.head?.map Prod.fst :=
      (TableHeap.next_congr h₁.shape e.1).trans (hwf.next_eq hrows)
    rw [hnext] at hrest
    rw [List.map_cons, List.cons_append, List.append_cons] at hall
    rw [List.map_cons, List.append_cons]
    rw [List.append_cons] at hrows
    exact ih h₁ hrows hall hrest

/-- **The rounds for an assignment.** -/
theorem InPlaceAfter.updateRows (h : InPlaceAfter t rs s) (hwf : t.heap.WellFormed t.ids)
    (hstarts : selected = none → t.heap.StartsLive)
    (hall : StaysInPlace t (rs ++ ((rowIds t selected).map (fun rid => (a, rid)) ++ post)))
    (hpass : updateRowsCounted selected rounds s a = some (s', true)) :
    InPlaceAfter t (rs ++ (rowIds t selected).map (fun rid => (a, rid))) s' := by
  cases selected with
  | some R => exact h.forEach hwf hall hpass
  | none =>
    have hbegin : s.1.heap.begin = t.heap.rows.head?.map Prod.fst :=
      (TableHeap.begin_congr h.shape).trans (hwf.startsLive_iff.mp (hstarts rfl))
    unfold updateRowsCounted at hpass
    rw [hbegin] at hpass
    have hids : (rowIds t none).map (fun rid => (a, rid)) = t.heap.rows.map (fun e => (a, e.1)) :=
      List.map_map
    rw [hids] at hall ⊢
    exact h.scan hwf (List.nil_append _).symm hall hpass

/-- Where no row has moved, the next assignment reaches every row. -/
theorem InPlaceAfter.reaches (h : InPlaceAfter t rs s) (hwf : t.heap.WellFormed t.ids)
    (hstarts : selected = none → t.heap.StartsLive) : Reaches t assignments selected s a := by
  rintro q ⟨hmov, y, hy, -⟩ hout
  rw [h.heap, heapAfter, TableHeap.live_mapRows] at hy
  obtain ⟨row, hrow, -⟩ := Option.map_eq_some_iff.mp hy
  cases selected with
  | some R => exact hout (hmov row hrow)
  | none =>
    have hbegin : t.heap.begin = none := (TableHeap.begin_congr h.shape).symm.trans hout
    rw [hwf.startsLive_iff.mp (hstarts rfl), Option.map_eq_none_iff, List.head?_eq_none_iff]
      at hbegin
    have hmem := (hwf.lists_rows.2 q row).mpr hrow
    rw [hbegin] at hmem
    cases hmem

/-- One assignment more. -/
theorem InPlaceAfter.pass (h : InPlaceAfter t (roundsOf done (rowIds t selected)) s)
    (hwf : t.heap.WellFormed t.ids) (hstarts : selected = none → t.heap.StartsLive)
    (hall : StaysInPlace t (roundsOf (done ++ [a] ++ rest) (rowIds t selected)))
    (hpass : updateRowsCounted selected rounds s a = some (s', true)) :
    InPlaceAfter t (roundsOf (done ++ [a]) (rowIds t selected)) s' := by
  rw [roundsOf_append, roundsOf_append, roundsOf_singleton, List.append_assoc] at hall
  rw [roundsOf_append, roundsOf_singleton]
  exact h.updateRows hwf hstarts hall hpass

/-- **Assignments that move no row.** -/
theorem InPlaceAfter.executeUpdate
    (h : InPlaceAfter t (roundsOf done (rowIds t selected)) s) (hwf : t.heap.WellFormed t.ids)
    (hstarts : selected = none → t.heap.StartsLive)
    (hall : StaysInPlace t (roundsOf (done ++ rest) (rowIds t selected)))
    (hrun : Loops.forEach (updateRowsCounted selected rounds) s rest = some (s', true)) :
    InPlaceAfter t (roundsOf (done ++ rest) (rowIds t selected)) s' := by
  induction rest generalizing s done with
  | nil =>
    cases hrun
    rwa [List.append_nil]
  | cons a rest ih =>
    obtain ⟨s₁, hpass, hrest⟩ := Loops.forEach_cons_true hrun
    rw [List.append_cons] at hall ⊢
    exact ih (h.pass hwf hstarts hall hpass) hall hrest

/-- **The assignments**, of which all but the last one move no row. -/
theorem InPlaceAfter.meets (h : InPlaceAfter t (roundsOf done (rowIds t selected)) s)
    (hwf : t.heap.WellFormed t.ids) (hstarts : selected = none → t.heap.StartsLive)
    (hall : StaysInPlace t (roundsOf (done ++ rest.dropLast) (rowIds t selected))) :
    Loops.ForEach.Meets (updateRowsCounted selected rounds) (Reaches t assignments selected)
      s rest := by
  induction rest generalizing s done with
  | nil => trivial
  | cons a rest ih =>
    refine ⟨h.reaches hwf hstarts, fun s₁ hpass => ?_⟩
    cases rest with
    | nil => trivial
    | cons b rest =>
      rw [List.dropLast_cons_cons, List.append_cons] at hall
      exact ih (h.pass hwf hstarts hall hpass) hall

/-- The round of a scan for some row, where the rows before it have not moved, and the rounds
behind it. -/
theorem InPlaceAfter.scan_round {e : RowId × List Field} {pre : List (RowId × List Field)}
    (h : InPlaceAfter t rs s) (hwf : t.heap.WellFormed t.ids)
    (hrows : t.heap.rows = pre ++ (seen ++ e :: es))
    (hall : StaysInPlace t (rs ++ seen.map (fun e => (a, e.1))))
    (hloop : Loops.scan (fun s rid => nextRow s.1 rid) (updateRowCounted a) n s
      ((seen ++ e :: es).head?.map Prod.fst) = some (s', true)) :
    ∃ k s₁ s₂, InPlaceAfter t (rs ++ seen.map (fun e => (a, e.1))) s₁ ∧
      updateRowCounted a s₁ e.1 = some (s₂, true) ∧
      Loops.scan (fun s rid => nextRow s.1 rid) (updateRowCounted a) k s₂ (nextRow s₂.1 e.1) =
        some (s', true) ∧
      ∀ cond, Loops.Scan.Meets (fun s rid => nextRow s.1 rid) (updateRowCounted a) cond n s
        ((seen ++ e :: es).head?.map Prod.fst) → cond s₁ e.1 ∧
          Loops.Scan.Meets (fun s rid => nextRow s.1 rid) (updateRowCounted a) cond k s₂
            (nextRow s₂.1 e.1) := by
  induction seen generalizing s rs pre n with
  | nil =>
    obtain ⟨k, s₂, rfl, hround, hrest⟩ := Loops.scan_some_true hloop
    rw [List.map_nil, List.append_nil]
    exact ⟨k, s, s₂, h, hround, hrest, fun cond hmeets => ⟨hmeets.1, hmeets.2 s₂ hround⟩⟩
  | cons m seen ih =>
    obtain ⟨k, s₁, rfl, hround, hrest⟩ := Loops.scan_some_true hloop
    have h₁ := h.round hwf (hall rs a m.1 _ rfl) hround
    rw [List.cons_append, List.append_cons] at hrows
    have hnext : nextRow s₁.1 m.1 = (seen ++ e :: es).head?.map Prod.fst := by
      rw [List.append_assoc] at hrows
      exact (TableHeap.next_congr h₁.shape m.1).trans (hwf.next_eq hrows)
    rw [hnext] at hrest
    rw [List.map_cons, List.append_cons] at hall ⊢
    obtain ⟨k', s₃, s₄, h₃, hround₃, hrest₃, hmeets₃⟩ := ih h₁ hrows hall hrest
    refine ⟨k', s₃, s₄, h₃, hround₃, hrest₃, fun cond hmeets => hmeets₃ cond ?_⟩
    rw [← hnext]
    exact hmeets.2 s₁ hround

/-! ## A first page that keeps a row -/

/-- A row of the first page is where it was, with some of the assignments. -/
def KeepsRow (t : TableInfo) (as : List Assignment) (q : RowId) (row : List Field)
    (s : TableInfo × ℕ) : Prop :=
  s.1.schema = t.schema ∧ s.1.ids = t.ids ∧ s.1.heap.WellFormed t.ids ∧
    ∃ bs, bs ⊆ as ∧ s.1.heap.live q = some (applyAll t.schema bs row)

variable {as : List Assignment} {q : RowId} {row : List Field} {b : Bool}

/-- A row that does not grow is not moved. -/
theorem KeepsRow.updateRow (h : KeepsRow t as q row s) (ha : a ∈ as)
    (hsize : NeverGrows t as row)
    (hfit : NewRowFits a s rid) (hround : updateRowCounted a s rid = some (s', b)) :
    KeepsRow t as q row s' := by
  cases b with
  | false =>
    unfold KeepsRow
    rw [← fst_updateRow_false hround]
    exact h
  | true =>
    obtain ⟨hschema, hids, hwf, bs, hbs, hlive⟩ := h
    obtain ⟨old, rid', hr⟩ := TableInfo.exists_rewrites (hids ▸ hwf) hfit hround
    refine ⟨hr.schema.trans hschema, hr.ids.trans hids, hids ▸ hr.wellFormed, ?_⟩
    by_cases hq : q = rid
    · subst hq
      cases hlive.symm.trans hr.got
      have happend : a.apply t.schema (applyAll t.schema bs row) =
          applyAll t.schema (bs ++ [a]) row := by
        rw [applyAll_append]
        rfl
      have hsub : bs ++ [a] ⊆ as :=
        List.append_subset.mpr ⟨hbs, List.cons_subset.mpr ⟨ha, List.nil_subset as⟩⟩
      have hsame : rid' = q := by
        have hplace := hr.place
        obtain ⟨p, hp, hs⟩ := TableHeap.exists_fetchPage hlive
        have hroom : ¬ SlotMap.room p.slots + Sized.size (applyAll t.schema bs row) <
            Sized.size (a.apply s.1.schema (applyAll t.schema bs row)) := by
          rw [hschema]
          exact not_lt.mpr ((hsize bs hbs a ha).trans (Nat.le_add_left _ _))
        have hres : (SlotMap.updateTuple p.slots
            (a.apply s.1.schema (applyAll t.schema bs row)) q.slotNum).2.1 = 1 := by
          simp only [SlotMap.updateTuple, hs, if_neg hroom]
        rw [TableHeap.place, hp] at hplace
        dsimp only at hplace
        rw [hres, if_neg one_ne_zero] at hplace
        exact (Option.some.inj hplace).symm
      refine ⟨bs ++ [a], hsub, ?_⟩
      rw [hr.live, hsame, Function.update_self, hschema, happend]
    · exact ⟨bs, hbs, hr.live_of_ne hq hlive⟩

/-- An assignment that finds the row in the first page reaches every row. -/
theorem KeepsRow.reaches (h : KeepsRow t as q row s) (hq : q.pageId = t.ids.id 0) :
    Reaches t assignments none s a := by
  rintro r - hout
  obtain ⟨-, -, hwf, bs, -, hlive⟩ := h
  obtain ⟨i, p, hp, hid, hs⟩ := hwf.live_eq_some.mp hlive
  obtain rfl : i = 0 := t.ids.injective i 0 (hid.symm.trans hq)
  rw [← List.head?_eq_getElem?] at hp
  exact TableHeap.begin_eq_none.mp hout p hp _ (List.mem_of_getElem? hs)

/-- **The assignments**, of which all but the last one leave the row where it is. -/
theorem KeepsRow.meets (h : KeepsRow t as q row s) (hq : q.pageId = t.ids.id 0)
    (hsize : NeverGrows t as row)
    (hsub : rest.dropLast ⊆ as)
    (hfit : Loops.ForEach.Meets (updateRowsCounted none rounds) (NewRowsFit none rounds) s rest) :
    Loops.ForEach.Meets (updateRowsCounted none rounds) (Reaches t assignments none) s rest := by
  induction rest generalizing s with
  | nil => trivial
  | cons a rest ih =>
    refine ⟨h.reaches hq, fun s₁ hpass => ?_⟩
    cases rest with
    | nil => trivial
    | cons b rest =>
      rw [List.dropLast_cons_cons, List.cons_subset] at hsub
      have h₁ : KeepsRow t as q row s₁ := Loops.scan_invariant
        (fun s rid s' b hs hfits => hs.updateRow hsub.1 hsize hfits) h hfit.1 hpass
      exact ih h₁ hsub.2 (hfit.2 s₁ hpass)

/-- **The rounds of a scan behind a row** leave it as it is. -/
theorem KeepsRow.of_scan {pos : Option RowId} (h : KeepsRow t as q row s)
    (hpos : ∀ r ∈ pos, t.ids.Before q r)
    (hfit : Loops.Scan.Meets (fun s rid => nextRow s.1 rid) (updateRowCounted a) (NewRowFits a)
      n s pos)
    (hloop : Loops.scan (fun s rid => nextRow s.1 rid) (updateRowCounted a) n s pos =
      some (s', true)) : KeepsRow t as q row s' := by
  induction n generalizing s pos with
  | zero =>
    cases pos with
    | none =>
      cases hloop
      exact h
    | some rid => cases hloop
  | succ n ih =>
    cases pos with
    | none =>
      cases hloop
      exact h
    | some rid =>
      obtain ⟨k, s₁, hk, hround, hrest⟩ := Loops.scan_some_true hloop
      cases hk
      obtain ⟨hschema, hids, hwf, bs, hbs, hlive⟩ := h
      have hbehind : t.ids.Before q rid := hpos rid rfl
      have hne : q ≠ rid := fun hq => (hq ▸ hbehind).irrefl
      obtain ⟨old, rid', hr⟩ := TableInfo.exists_rewrites (hids ▸ hwf) hfit.1 hround
      have h₁ : KeepsRow t as q row s₁ := ⟨hr.schema.trans hschema, hr.ids.trans hids,
        hids ▸ hr.wellFormed, bs, hbs, hr.live_of_ne hne hlive⟩
      refine ih h₁ (fun r hnext => ?_) (hfit.2 s₁ hround) hrest
      have hnext' : nextRow s₁.1 rid = some r := Option.mem_def.mp hnext
      have hfirst := hr.isFirst_next (hids ▸ hwf)
      rw [hnext', hids] at hfirst
      exact hbehind.trans hfirst.1.2

/-- **A pass** in which no row moves until it has come to a row of the first page. -/
theorem InPlaceAfter.keepsRow {e : RowId × List Field} (h : InPlaceAfter t rs s)
    (hwf : t.heap.WellFormed t.ids) (hstarts : t.heap.StartsLive)
    (hrows : t.heap.rows = seen ++ e :: es)
    (hall : StaysInPlace t (rs ++ (seen ++ [e]).map (fun e => (a, e.1))))
    (hlive : (t.heapAfter (rs ++ (seen ++ [e]).map (fun e => (a, e.1)))).live e.1 = some row)
    (hfit : NewRowsFit none rounds s a)
    (hpass : updateRowsCounted none rounds s a = some (s', true)) : KeepsRow t as e.1 row s' := by
  have hbegin : s.1.heap.begin = (seen ++ e :: es).head?.map Prod.fst := by
    rw [← hrows]
    exact (TableHeap.begin_congr h.shape).trans (hwf.startsLive_iff.mp hstarts)
  have hfits : Loops.Scan.Meets (fun s rid => nextRow s.1 rid) (updateRowCounted a)
      (NewRowFits a) rounds s s.1.heap.begin := hfit
  unfold updateRowsCounted at hpass
  rw [hbegin] at hfits hpass
  rw [List.map_append, ← List.append_assoc] at hall hlive
  have hrows' : t.heap.rows = [] ++ (seen ++ e :: es) := hrows
  obtain ⟨k, s₁, s₂, h₁, hround, hrest, hmeets⟩ := h.scan_round hwf hrows' hall.of_append hpass
  obtain ⟨hfit₁, hfit₂⟩ := hmeets _ hfits
  -- the round for the row itself
  have h₂ := h₁.round hwf (hall _ a e.1 [] rfl) hround
  have hkeeps : KeepsRow t as e.1 row s₂ := by
    refine ⟨h₂.schema, h₂.ids, h₂.ids ▸ h₂.wellFormed hwf, [], List.nil_subset _, ?_⟩
    rw [h₂.heap]
    exact hlive
  obtain ⟨old, rid', hr⟩ := TableInfo.exists_rewrites (h₁.wellFormed hwf) hfit₁ hround
  refine hkeeps.of_scan (fun r hnext => ?_) hfit₂ hrest
  have hfirst := hr.isFirst_next (h₁.wellFormed hwf)
  rw [Option.mem_def.mp hnext, h₁.ids] at hfirst
  exact hfirst.1.2

/-- Assignments that move no row reach every row. -/
theorem InPlaceAfter.meets_all (h : InPlaceAfter t (roundsOf done (rowIds t selected)) s)
    (hwf : t.heap.WellFormed t.ids) (hstarts : selected = none → t.heap.StartsLive)
    (hall : StaysInPlace t (roundsOf (done ++ rest) (rowIds t selected))) :
    Loops.ForEach.Meets (updateRowsCounted selected rounds) (Reaches t assignments selected)
      s rest := by
  refine h.meets hwf hstarts ?_
  rcases List.eq_nil_or_concat rest with rfl | ⟨rest, b, rfl⟩
  · exact hall
  · rw [List.concat_eq_append] at hall ⊢
    rw [← List.append_assoc, roundsOf_append] at hall
    rw [List.dropLast_concat]
    exact hall.of_append

/-- **A scan that keeps a row in the first page** reaches every row. -/
theorem FirstPageKeeps.meets (h : FirstPageKeeps t assignments) (hwf : t.heap.WellFormed t.ids)
    (hstarts : t.heap.StartsLive) {all : List Assignment}
    (hfit : AllFit t assignments none rounds) :
    Loops.ForEach.Meets (updateRowsCounted none rounds) (Reaches t all none) (t, 0)
      assignments := by
  have hstart : InPlaceAfter t (roundsOf [] (rowIds t none)) (t, 0) := inPlaceAfter_nil
  cases h with
  | fromStart hpage hstays hlive hnever =>
    refine (hstart.meets_all hwf (fun _ => hstarts) hstays).append (fun s₁ hdone => ?_)
    have h₁ := hstart.executeUpdate hwf (fun _ => hstarts) hstays hdone
    refine KeepsRow.meets ⟨h₁.schema, h₁.ids, h₁.ids ▸ h₁.wellFormed hwf, [], List.nil_subset _, ?_⟩
      hpage hnever (List.Subset.refl _) (hfit.of_append hdone)
    rw [h₁.heap]
    exact hlive
  | @fromRow done rest a seen es e row rs hpage hrows hrounds hstays hlive hnever =>
    subst hrounds
    have hdone' := hstays.of_append
    refine (hstart.meets_all hwf (fun _ => hstarts) hdone').append (fun s₁ hdone => ?_)
    have h₁ := hstart.executeUpdate hwf (fun _ => hstarts) hdone' hdone
    have hfit₁ := hfit.of_append hdone
    refine ⟨h₁.reaches hwf (fun _ => hstarts), fun s₂ hpass => ?_⟩
    have h₂ : KeepsRow t rest.dropLast e.1 row s₂ :=
      h₁.keepsRow hwf hstarts hrows hstays hlive hfit₁.1 hpass
    exact h₂.meets hpage hnever (List.Subset.refl _) (hfit₁.2 s₂ hpass)

/-! ## Updates that are right -/

/-- **A statement that disturbs no row** is right. -/
theorem Undisturbed.updatesRight (h : Undisturbed t assignments selected)
    (hwf : t.heap.WellFormed t.ids)
    (hsel : ∀ R, selected = some R → R.Nodup ∧ ∀ rid ∈ R, t.heap.live rid ≠ none)
    (hfit : AllFit t assignments selected rounds)
    (hrun : t.executeUpdateCounted assignments selected rounds = some (s', true)) :
    UpdatesRight t assignments selected s' := by
  refine (updatesRight_iff_reaches hwf hsel hfit hrun).mpr ⟨?_, fun hnone a ha => ?_⟩
  · rcases h.stays with hstays | ⟨rfl, hkeeps⟩
    · have hstart : InPlaceAfter t (roundsOf [] (rowIds t selected)) (t, 0) := inPlaceAfter_nil
      exact hstart.meets hwf h.starts hstays
    · exact hkeeps.meets hwf (h.starts rfl) hfit
  · subst hnone ha
    have hpass := Loops.forEach_singleton.mp hrun
    have hstays := h.counts rfl rfl
    rw [roundsOf_singleton, ← List.append_nil (List.map _ _), ← List.nil_append (_ ++ _)] at hstays
    have hend := inPlaceAfter_nil.updateRows hwf h.starts hstays hpass
    refine (count_executeUpdate hwf hfit hpass).mp (hend.count.trans ?_)
    rw [List.nil_append, List.length_map]
    exact List.length_map _

end Rounds

/-! ## A row that moves -/

namespace TableHeap

variable {ids : PageIds} {h : TableHeap} {rid rid' : RowId} {row old : List Field} {p : HeapPage}

/-- The heap without a row. -/
theorem markDelete_applyDelete (hp : h.fetchPage rid.pageId = some p)
    (hs : p.slots[rid.slotNum]? = some (.live old)) :
    (h.markDelete rid).bind (fun h₁ => h₁.applyDelete rid) =
      some (h.setSlots rid.pageId (p.slots.set rid.slotNum .free)) := by
  have hmark : h.markDelete rid =
      some (h.setSlots rid.pageId (p.slots.set rid.slotNum (.marked old))) := by
    rw [markDelete, hp, Option.map_some, SlotMap.markDelete, hs]
  have hlt : rid.slotNum < p.slots.length := (List.getElem?_eq_some_iff.mp hs).1
  have hid : p.pageId = rid.pageId := pageId_of_fetchPage hp
  rw [hmark, Option.bind_some, applyDelete, fetchPage_setSlots, hp, Option.map_some, if_pos hid]
  dsimp only
  rw [SlotMap.applyDelete, List.getElem?_set_self hlt]
  dsimp only
  rw [List.set_set, Option.map_some, setSlots, setSlots, List.map_map]
  refine congrArg (fun pages => some (TableHeap.mk pages)) (List.map_congr_left (fun q _ => ?_))
  rw [Function.comp_apply]
  by_cases hq : q.pageId = rid.pageId
  · simp only [if_pos hq]
  · simp only [if_neg hq]

/-- **A row that does not fit** goes to another page, one that has room for it or a new one. -/
theorem WellFormed.place_spec (hwf : h.WellFormed ids) (hlive : h.live rid = some old)
    (hnofit : ¬ h.Fits row rid) (hplace : h.place ids row rid = some rid') :
    ∃ i j, rid.pageId = ids.id i ∧ rid'.pageId = ids.id j ∧ i ≠ j ∧
      ∀ q, h.pages[j]? = some q → Sized.size row + 8 ≤ SlotMap.room q.slots := by
  obtain ⟨p, hp, hs⟩ := exists_fetchPage hlive
  obtain ⟨i, hi⟩ := List.mem_iff_getElem?.mp (List.mem_of_find?_eq_some hp)
  have hid : rid.pageId = ids.id i := (pageId_of_fetchPage hp).symm.trans (hwf i p hi)
  have hfull : SlotMap.room p.slots + Sized.size old < Sized.size row := by
    by_contra hno
    refine hnofit (fun p' old' hp' hs' => ?_)
    cases hp.symm.trans hp'
    cases hs.symm.trans hs'
    exact not_lt.mp hno
  have hres : (SlotMap.updateTuple p.slots row rid.slotNum).2.1 = 0 := by
    simp only [SlotMap.updateTuple, hs, if_pos hfull]
  rw [place, hp] at hplace
  dsimp only at hplace
  rw [hres, if_pos rfl, markDelete_applyDelete hp hs, Option.bind_some] at hplace
  obtain ⟨⟨h₃, r⟩, hins, hr⟩ := Option.bind_eq_some_iff.mp hplace
  obtain rfl : r = some rid' := hr
  unfold TableHeap.insertTuple at hins
  split at hins
  · cases hins
  split at hins
  · -- a page with room
    rename_i pages r hinto
    cases hins
    obtain ⟨pre, q, post, slots, hpages, -, hq, hslots⟩ := insertInto_eq_some hinto
    have hj : (h.setSlots rid.pageId (p.slots.set rid.slotNum .free)).pages[pre.length]? =
        some q := by
      rw [hpages, List.getElem?_append_right le_rfl, Nat.sub_self]
      rfl
    have hroom : Sized.size row + 8 ≤ SlotMap.room q.slots := by
      by_contra hno
      rw [SlotMap.insertTuple, if_pos (not_le.mp hno)] at hslots
      cases hslots
    rw [TableHeap.setSlots, List.getElem?_map] at hj
    obtain ⟨q₀, hq₀, hqq⟩ := Option.map_eq_some_iff.mp hj
    have hid₀ := hwf pre.length q₀ hq₀
    by_cases hsame : q₀.pageId = rid.pageId
    · -- the page of the row itself does not have the room
      have hij : i = pre.length := ids.injective i pre.length (by rw [← hid, ← hsame, hid₀])
      rw [hij, hq₀] at hi
      cases hi
      rw [if_pos hsame] at hqq
      subst hqq
      have hused := SlotMap.used_set (s := .free) hs
      have hfree : (Slot.free : Slot (List Field)).len = 0 := rfl
      have hold : (Slot.live old).len = Sized.size old := rfl
      unfold SlotMap.room at hroom hfull
      dsimp only at hroom
      rw [List.length_set] at hroom
      omega
    · rw [if_neg hsame] at hqq
      subst hqq
      refine ⟨i, pre.length, hid, hq.symm.trans hid₀, fun hij => hsame ?_, fun q hq => ?_⟩
      · rw [hid₀, hid, hij]
      · cases hq₀.symm.trans hq
        exact hroom
  · -- a new page
    have hlt : i < h.pages.length := (List.getElem?_eq_some_iff.mp hi).1
    have hnew : rid'.pageId = ids.id h.pages.length := by
      split at hins
      · cases hins
        rw [length_setSlots]
      · cases hins
    refine ⟨i, h.pages.length, hid, hnew, hlt.ne, fun q hq => ?_⟩
    rw [List.getElem?_eq_none le_rfl] at hq
    cases hq

end TableHeap

section Wrong

variable {t : TableInfo} {assignments done rest : List Assignment} {a b : Assignment}
  {s s' : TableInfo × ℕ} {rid : RowId} {R before behind : List RowId} {rounds : ℕ}
  {old row : List Field} {seen es : List (RowId × List Field)}

/-- **A scan that does not start** changes nothing and counts nothing. -/
theorem updatesRight_of_not_startsLive (hwf : t.heap.WellFormed t.ids)
    (hnot : ¬ t.heap.StartsLive)
    (hrun : t.executeUpdateCounted assignments none rounds = some (s', true)) :
    UpdatesRight t assignments none s' ↔
      assignments.length ≠ 1 ∧ ∀ e ∈ t.heap.rows, applyAll t.schema assignments e.2 = e.2 := by
  obtain ⟨hpage, hrows⟩ := not_or.mp hnot
  have hbegin : t.heap.begin = none := by
    rw [TableHeap.begin_eq_none]
    exact fun p hp row hrow => hpage ⟨p, hp, row, hrow⟩
  have hidle : ∀ as : List Assignment,
      Loops.forEach (updateRowsCounted none rounds) (t, 0) as = some ((t, 0), true) := by
    intro as
    induction as with
    | nil => rfl
    | cons a as ih =>
      have hpass : updateRowsCounted none rounds (t, 0) a = some ((t, 0), true) := by
        unfold updateRowsCounted
        rw [hbegin]
        cases rounds <;> rfl
      rw [Loops.forEach, hpass]
      exact ih
  have hsame := (hidle assignments).symm.trans hrun
  obtain rfl : (t, 0) = s' := congrArg Prod.fst (Option.some.inj hsame)
  have hstart : Run t assignments none (fun _ => applyAll t.schema assignments) (t, 0) :=
    run_self hwf (fun _ _ _ => rfl)
  constructor
  · intro hright
    refine ⟨fun hone => hrows ?_, fun e he => ?_⟩
    · obtain ⟨a, rfl⟩ := List.length_eq_one_iff.mp hone
      have hcount := hright.count a rfl
      rw [filter_selects_none] at hcount
      exact List.length_eq_zero_iff.mp hcount.symm
    · by_contra hne
      have hlive : t.heap.live e.1 = some e.2 := (hwf.lists_rows.2 e.1 e.2).mp he
      have hleft : Unfinished t assignments none (t, 0) e.1 :=
        ⟨fun _ _ => trivial, e.2, hlive, hne⟩
      exact hleft.not_perm hstart hwf hright.rows
  · rintro ⟨hmany, hdone⟩
    refine ⟨List.Perm.of_eq (List.map_congr_left (fun e he => ?_)), fun a ha => ?_⟩
    · exact ((if_pos trivial).trans (hdone e he)).symm
    · exact absurd (congrArg List.length ha) hmany

/-- The place that the heap has for the row of a round, where it does not fit, was free before
the statement. -/
theorem InPlaceAfter.live_place {rs : List (Assignment × RowId)} {rid' : RowId}
    (h : InPlaceAfter t rs s) (hwf : t.heap.WellFormed t.ids) (hr : Rewrites a s s' rid old rid')
    (hnofit : ¬ s.1.heap.Fits (a.apply s.1.schema old) rid) : t.heap.live rid' = none := by
  obtain ⟨i, j, hi, hj, hij, -⟩ := (h.wellFormed hwf).place_spec hr.got hnofit hr.place
  have hne : rid' ≠ rid := fun e => hij (s.1.ids.injective i j (by rw [← hi, ← hj, e]))
  have hfree := hr.free
  rwa [Function.update_of_ne hne, h.heap, heapAfter, TableHeap.live_mapRows,
    Option.map_eq_none_iff] at hfree

/-- A row at a place that is not selected is not touched. -/
theorem live_of_forEach {W : List RowId} {q : RowId}
    (hwf : s.1.heap.WellFormed s.1.ids) (hq : q ∉ W)
    (hfit : Loops.ForEach.Meets (updateRowCounted a) (NewRowFits a) s W)
    (hlive : s.1.heap.live q = some row)
    (hloop : Loops.forEach (updateRowCounted a) s W = some (s', true)) :
    s'.1.heap.live q = some row := by
  induction W generalizing s with
  | nil =>
    cases hloop
    exact hlive
  | cons rid W ih =>
    obtain ⟨s₁, hround, hrest⟩ := Loops.forEach_cons_true hloop
    obtain ⟨hne, hq⟩ := not_or.mp (mt List.mem_cons.mpr hq)
    obtain ⟨old, rid', hr⟩ := TableInfo.exists_rewrites hwf hfit.1 hround
    have hwf₁ : s₁.1.heap.WellFormed s₁.1.ids := hr.ids ▸ hr.wellFormed
    exact ih hwf₁ hq (hfit.2 s₁ hround) (hr.live_of_ne hne hlive) hrest

/-- **A row that leaves the selected row ids** with something left to be done makes the
statement wrong. -/
theorem not_updatesRight_of_leaves (hwf : t.heap.WellFormed t.ids)
    (hsel : R.Nodup ∧ ∀ rid ∈ R, t.heap.live rid ≠ none)
    (hfit : AllFit t (done ++ a :: b :: rest) (some R) rounds)
    (hrun : t.executeUpdateCounted (done ++ a :: b :: rest) (some R) rounds = some (s', true))
    (hR : R = before ++ rid :: behind)
    (hstays : StaysInPlace t (roundsOf done R ++ before.map (fun rid => (a, rid))))
    (hold : (t.heapAfter (roundsOf done R ++ before.map (fun rid => (a, rid)))).live rid = some old)
    (hnofit : ¬ (t.heapAfter (roundsOf done R ++ before.map (fun rid => (a, rid)))).Fits
      (a.apply t.schema old) rid)
    (hleft : applyAll t.schema (done ++ a :: b :: rest) (a.apply t.schema old) ≠
      a.apply t.schema old) :
    ¬ UpdatesRight t (done ++ a :: b :: rest) (some R) s' := by
  intro hright
  have hsel' : ∀ R', some R = some R' → R'.Nodup ∧ ∀ rid ∈ R', t.heap.live rid ≠ none := by
    intro R' hR'
    cases hR'
    exact hsel
  have hreach := ((updatesRight_iff_reaches hwf hsel' hfit hrun).mp hright).1
  -- the assignments before
  obtain ⟨s₁, hdone, hrest⟩ := Loops.forEach_append_true hrun
  have hstart : InPlaceAfter t (roundsOf [] (rowIds t (some R))) (t, 0) := inPlaceAfter_nil
  have h₁ : InPlaceAfter t (roundsOf done R) s₁ :=
    hstart.executeUpdate hwf nofun hstays.of_append hdone
  obtain ⟨s₂, hpass, -⟩ := Loops.forEach_cons_true hrest
  have hreach₂ : Reaches t (done ++ a :: b :: rest) (some R) s₂ b :=
    ((hreach.of_append hdone).2 s₂ hpass).1
  have hfit₁ : Loops.ForEach.Meets (updateRowCounted a) (NewRowFits a) s₁ R :=
    (hfit.of_append hdone).1
  -- the rounds before
  have hpass' : Loops.forEach (updateRowCounted a) s₁ (before ++ rid :: behind) =
      some (s₂, true) := hR ▸ hpass
  rw [hR] at hfit₁
  obtain ⟨s₃, hbefore, hfrom⟩ := Loops.forEach_append_true hpass'
  have hfit₃ := hfit₁.of_append hbefore
  have h₃ : InPlaceAfter t (roundsOf done R ++ before.map (fun rid => (a, rid))) s₃ := by
    rw [← List.append_nil (before.map _)] at hstays
    exact h₁.forEach hwf hstays hbefore
  -- the row leaves, and stays where it is
  obtain ⟨s₄, hround, hbehind⟩ := Loops.forEach_cons_true hfrom
  obtain ⟨old', rid', hr⟩ := TableInfo.exists_rewrites (h₃.wellFormed hwf) hfit₃.1 hround
  rw [← h₃.heap] at hold hnofit
  cases hold.symm.trans hr.got
  rw [← h₃.schema] at hnofit
  have hfree := h₃.live_place hwf hr hnofit
  have hmem : rid' ∉ R := fun hmem => hsel.2 rid' hmem hfree
  have hlive : s₄.1.heap.live rid' = some (a.apply t.schema old) := by
    rw [hr.live, Function.update_self, h₃.schema]
  have hwf₄ : s₄.1.heap.WellFormed s₄.1.ids := hr.ids ▸ hr.wellFormed
  have hnot : rid' ∉ behind := by
    rw [hR] at hmem
    exact fun hb => hmem (List.mem_append_right _ (List.mem_cons_of_mem _ hb))
  have hend := live_of_forEach hwf₄ hnot (hfit₃.2 s₄ hround) hlive hbehind
  refine hreach₂ rid' ⟨fun row hrow => ?_, _, hend, hleft⟩ hmem
  cases hfree.symm.trans hrow

/-- **A row that a scan moves behind its place** is counted again. -/
theorem not_updatesRight_of_passed {e : RowId × List Field} (hwf : t.heap.WellFormed t.ids)
    (hfit : AllFit t [a] none rounds)
    (hrun : t.executeUpdateCounted [a] none rounds = some (s', true))
    (hrows : t.heap.rows = seen ++ e :: es)
    (hstays : StaysInPlace t (seen.map (fun e => (a, e.1))))
    (hold : (t.heapAfter (seen.map (fun e => (a, e.1)))).live e.1 = some old)
    (hnofit : ¬ (t.heapAfter (seen.map (fun e => (a, e.1)))).Fits (a.apply t.schema old) e.1)
    (hfull : ∀ i j p, e.1.pageId = t.ids.id i → j < i →
      (t.heapAfter (seen.map (fun e => (a, e.1)))).pages[j]? = some p →
        SlotMap.room p.slots < Sized.size (a.apply t.schema old) + 8) :
    ¬ UpdatesRight t [a] none s' := by
  intro hright
  have hstarts : t.heap.StartsLive := by
    by_contra hnot
    exact ((updatesRight_of_not_startsLive hwf hnot hrun).mp hright).1 rfl
  have hpass := Loops.forEach_singleton.mp hrun
  have hcount := hright.count a rfl
  rw [filter_selects_none] at hcount
  have hbefore := ((count_executeUpdate hwf hfit hpass).mp hcount).stays
  have hfits : NewRowsFit none rounds (t, 0) a := hfit.1
  -- the round for the row
  unfold NewRowsFit at hfits
  unfold updateRowsCounted at hpass
  dsimp only at hfits
  rw [hwf.startsLive_iff.mp hstarts, hrows] at hfits hpass hbefore
  have hrows' : t.heap.rows = [] ++ (seen ++ e :: es) := hrows
  obtain ⟨k, s₁, s₂, h₁, hround, -, hmeets⟩ := inPlaceAfter_nil.scan_round hwf hrows' hstays hpass
  rw [List.nil_append] at h₁
  obtain ⟨old', rid', hr⟩ := TableInfo.exists_rewrites (h₁.wellFormed hwf) (hmeets _ hfits).1 hround
  rw [← h₁.heap] at hold hnofit hfull
  cases hold.symm.trans hr.got
  rw [← h₁.schema] at hnofit hfull
  -- it goes behind its place
  refine hr.staysBefore_iff.mp (hmeets _ hbefore).1 ?_
  obtain ⟨i, j, hi, hj, hij, hroom⟩ := (h₁.wellFormed hwf).place_spec hr.got hnofit hr.place
  refine ⟨i, j, hi, hj, .inl (hij.lt_or_gt.resolve_right (fun hlt => ?_))⟩
  obtain ⟨k, hk, hid⟩ :=
    (h₁.wellFormed hwf).exists_page (Option.ne_none_iff_exists'.mpr ⟨old, hr.got⟩)
  obtain rfl : i = k := s₁.1.ids.injective i k (hi.symm.trans hid)
  have hp := List.getElem?_eq_getElem (hlt.trans hk)
  exact absurd (hroom _ hp) (not_le.mpr (hfull i j _ (h₁.ids ▸ hi) hlt hp))

end Wrong

/-! ## The statement -/

/-- **A row is disturbed**: the scan does not start where there is something to do, a row
leaves the selected row ids before its last assignment, or the only scan moves a row behind its
place, since no page before has room for it. -/
inductive Disturbed (t : TableInfo) : List Assignment → Option (List RowId) → Prop
  | unstarted {assignments : List Assignment} (hnot : ¬ t.heap.StartsLive)
      (hdo : assignments.length = 1 ∨
        ∃ e ∈ t.heap.rows, applyAll t.schema assignments e.2 ≠ e.2) :
      Disturbed t assignments none
  | leaves {done rest : List Assignment} {a b : Assignment} {before behind : List RowId}
      {rid : RowId} {old : List Field} {h : TableHeap}
      (hheap : h = t.heapAfter (roundsOf done (before ++ rid :: behind) ++
        before.map (fun rid => (a, rid))))
      (hstays : StaysInPlace t (roundsOf done (before ++ rid :: behind) ++
        before.map (fun rid => (a, rid))))
      (hold : h.live rid = some old) (hnofit : ¬ h.Fits (a.apply t.schema old) rid)
      (hleft : applyAll t.schema (done ++ a :: b :: rest) (a.apply t.schema old) ≠
        a.apply t.schema old) :
      Disturbed t (done ++ a :: b :: rest) (some (before ++ rid :: behind))
  | passed {a : Assignment} {seen es : List (RowId × List Field)} {e : RowId × List Field}
      {old : List Field} {h : TableHeap} (hrows : t.heap.rows = seen ++ e :: es)
      (hheap : h = t.heapAfter (seen.map (fun e => (a, e.1))))
      (hstays : StaysInPlace t (seen.map (fun e => (a, e.1))))
      (hold : h.live e.1 = some old) (hnofit : ¬ h.Fits (a.apply t.schema old) e.1)
      (hfull : ∀ i j p, e.1.pageId = t.ids.id i → j < i → h.pages[j]? = some p →
        SlotMap.room p.slots < Sized.size (a.apply t.schema old) + 8) :
      Disturbed t [a] none

end MiniSql
