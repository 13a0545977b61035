import MiniSql.UniqueKeys

/-!
# Statements that fail

A statement that does not succeed is to leave the live rows and the contents
of the indexes as they were (`TableInfo.Unchanged`). `ExecuteInsert` makes all
its checks before it writes. `ExecuteUpdate` makes those of a round after the
writes of the rounds before it, so it keeps its word only where these rounds
had nothing to write (`TableInfo.Idle`).

For one assignment, on a table whose indexes agree with its heap, this is also
necessary: a row that has got the assigned value once does not lose it in a
later round (`TableInfo.Spoilt`).
-/

namespace MiniSql

namespace TableInfo

open IndexInfo

variable {t t' t₀ : TableInfo} {rid : RowId} {a : Assignment} {b : Bool} {row old new : List Field}

/-- The live rows and the contents of the indexes are as they were. -/
def Unchanged (t t' : TableInfo) : Prop :=
  t'.heap.live = t.heap.live ∧ t'.indexes = t.indexes

/-- A round has nothing to write: it stops at a duplicate, or the row has the
assigned value already and its keys are in the indexes. -/
def Idle (a : Assignment) (t : TableInfo) (rid : RowId) : Prop :=
  ∀ old new, t.heap.live rid = some old → t.newRow a old = some (some new) →
    t.Blocked a new ∨
      new = old ∧ ∀ I ∈ t.indexes, ∀ k, I.key old = some k → I.container k = some rid

/-! ## Idle rounds -/

/-- **An idle round** changes nothing. -/
theorem Idle.unchanged (hidle : Idle a t rid) (hwf : t.heap.WellFormed t.ids)
    (h : t.updateRow a rid = some (t', b)) :
    Unchanged t t' ∧ t'.heap.WellFormed t'.ids ∧ t'.schema = t.schema := by
  rcases updateRow_cases hwf h with ⟨-, rfl, -⟩ | ⟨-, old, new, hlive, hnew, hcheck, hcases⟩
  · exact ⟨⟨rfl, rfl⟩, hwf, rfl⟩
  obtain ⟨rfl, hkeys⟩ := (hidle old new hlive hnew).resolve_left hcheck.not_blocked
  rcases hcases with hin | ⟨hfit, -⟩
  · refine ⟨⟨?_, ?_⟩, hin.wellFormed, hin.schema⟩
    · rw [hin.live, ← hlive, Function.update_eq_self]
    · refine hin.indexes_eq ?_
      rintro I hI c ⟨k, k', hk, hk', hc⟩
      cases hk.symm.trans hk'
      have hentry : I.container k = some rid := hkeys I hI k hk
      rw [Stays, hc (.inl rfl), Function.update_idem, ← hentry, Function.update_eq_self]
  · exact absurd (TableHeap.fits_of_size_le hlive le_rfl) hfit

/-- **Idle rounds** change nothing, however many. -/
theorem unchanged_of_idle (hwf : t.heap.WellFormed t.ids) {assignments : List Assignment}
    {selected : Option (List RowId)} {rounds : ℕ}
    (hidle : (TableStatement.update assignments selected rounds).Meets Idle t)
    (h : t.executeUpdate assignments selected rounds = some (t', b)) : Unchanged t t' := by
  have hkept := executeUpdate_invariant (P := fun s => Unchanged t s ∧ s.heap.WellFormed s.ids)
    (fun s a rid s' b hs hidle h => by
      obtain ⟨⟨hlive, hindexes⟩, hwf', -⟩ := hidle.unchanged hs.2 h
      exact ⟨⟨hlive.trans hs.1.1, hindexes.trans hs.1.2⟩, hwf'⟩) ⟨⟨rfl, rfl⟩, hwf⟩ hidle h
  exact hkept.1

/-- `ExecuteInsert` makes all its checks before it writes. -/
theorem unchanged_of_executeInsert (hwf : t.heap.WellFormed t.ids) {values : List Literal}
    (h : t.executeInsert values = some (t', false)) : Unchanged t t' := by
  rcases executeInsert_cases hwf h with hsame | ⟨⟨⟩, -⟩
  exact ⟨hsame.live, hsame.indexes_eq (fun _ _ _ hc => hc)⟩

/-! ## Rounds that write -/

/-- A row that did not have the assigned value is gone, or has it. -/
def Spoilt (t₀ : TableInfo) (a : Assignment) (t : TableInfo) : Prop :=
  t.heap.WellFormed t.ids ∧ t.schema = t₀.schema ∧ ∃ rid old c f, t₀.heap.live rid = some old ∧
    Sets t₀.schema a c f ∧ old[c]? ≠ some f ∧
    (t.heap.live rid = none ∨ ∃ row, t.heap.live rid = some row ∧ row[c]? = some f)

/-- What a round leaves under a row id: what was there, nothing, or a row with
the assigned value. Under the row id of the round it is not what was
there. -/
theorem live_of_updateRow (hwf : t.heap.WellFormed t.ids)
    (h : t.updateRow a rid = some (t', true)) :
    t'.heap.WellFormed t'.ids ∧ t'.schema = t.schema ∧
    ∃ old c f, t.heap.live rid = some old ∧ Sets t.schema a c f ∧ c < old.length ∧
      t.newRow a old = some (some (old.set c f)) ∧
      (t'.heap.live rid = none ∨ t'.heap.live rid = some (old.set c f)) ∧
      ∀ r, r ≠ rid → t'.heap.live r = t.heap.live r ∨ t'.heap.live r = some (old.set c f) := by
  rcases updateRow_cases hwf h with ⟨⟨⟩, -⟩ | ⟨-, old, new, hlive, hnew, -, hcases⟩
  obtain ⟨c, f, hsets, hlen, rfl⟩ := newRow_eq_some.mp hnew
  rcases hcases with hin | ⟨-, hout | ⟨rid', -, hmoved⟩⟩
  · refine ⟨hin.wellFormed, hin.schema, old, c, f, hlive, hsets, hlen, hnew, .inr ?_,
      fun r hr => .inl ?_⟩
    · rw [hin.live, Function.update_self]
    · rw [hin.live, Function.update_of_ne hr]
  · refine ⟨hout.wellFormed, hout.schema, old, c, f, hlive, hsets, hlen, hnew, .inl ?_,
      fun r hr => .inl ?_⟩
    · rw [hout.live, Function.update_self]
    · rw [hout.live, Function.update_of_ne hr]
  · refine ⟨hmoved.wellFormed, hmoved.schema, old, c, f, hlive, hsets, hlen, hnew, ?_,
      fun r hr => ?_⟩
    · rw [hmoved.live]
      by_cases hrid : rid = rid'
      · exact .inr (by rw [hrid, Function.update_self])
      · exact .inl (by rw [Function.update_of_ne hrid, Function.update_self])
    · rw [hmoved.live]
      by_cases hrid : r = rid'
      · exact .inr (by rw [hrid, Function.update_self])
      · exact .inl (by rw [Function.update_of_ne hrid, Function.update_of_ne hr])

/-- No round makes it good. -/
theorem Spoilt.updateRow (hs : Spoilt t₀ a t) (h : t.updateRow a rid = some (t', b)) :
    Spoilt t₀ a t' := by
  obtain ⟨hwf, hschema, r, old, c, f, hold, hsets, hne, hlive⟩ := hs
  cases b with
  | false =>
    rcases updateRow_cases hwf h with ⟨-, rfl, -⟩ | ⟨⟨⟩, -⟩
    exact ⟨hwf, hschema, r, old, c, f, hold, hsets, hne, hlive⟩
  | true =>
    obtain ⟨hwf', hschema', old', c', f', -, hsets', hlen, -, hself, hother⟩ :=
      live_of_updateRow hwf h
    rw [hschema] at hsets'
    obtain ⟨rfl, rfl⟩ := hsets.unique hsets'
    have hnew : (old'.set c f)[c]? = some f := List.getElem?_set_self hlen
    refine ⟨hwf', hschema'.trans hschema, r, old, c, f, hold, hsets, hne, ?_⟩
    by_cases hr : r = rid
    · rw [hr]
      exact hself.imp id (fun hrow => ⟨_, hrow, hnew⟩)
    · rcases hother r hr with hsame | hrow
      · rw [hsame]
        exact hlive
      · exact .inr ⟨_, hrow, hnew⟩

/-- A round is idle, or it spoils a row. -/
theorem idle_or_spoilt (hwf : t.heap.WellFormed t.ids) (hagree : t.IndexesAgree)
    (hlive₀ : t.heap.live = t₀.heap.live) (hschema : t.schema = t₀.schema)
    (h : t.updateRow a rid = some (t', b)) : Idle a t rid ∨ b = true ∧ Spoilt t₀ a t' := by
  cases b with
  | false =>
    rcases updateRow_cases hwf h with ⟨-, -, hblocked⟩ | ⟨⟨⟩, -⟩
    exact .inl (fun old new hlive hnew => .inl (hblocked old new hlive hnew))
  | true =>
    obtain ⟨hwf', hschema', old, c, f, hlive, hsets, hlen, hnew, hself, -⟩ :=
      live_of_updateRow hwf h
    by_cases hval : old[c]? = some f
    · refine .inl (fun old' new hlive' hnew' => .inr ?_)
      cases hlive.symm.trans hlive'
      cases hnew.symm.trans hnew'
      have hset : old.set c f = old := by
        obtain ⟨hlt, hget⟩ := List.getElem?_eq_some_iff.mp hval
        rw [← hget, List.set_getElem_self]
      refine ⟨hset, fun I hI k hk => ?_⟩
      obtain ⟨k', hk', hentry⟩ := (hagree I hI).1 rid old hlive
      cases hk.symm.trans hk'
      exact hentry
    · rw [hschema] at hsets
      refine .inr ⟨rfl, hwf', hschema'.trans hschema, rid, old, c, f, hlive₀ ▸ hlive, hsets,
        hval, ?_⟩
      exact hself.imp id (fun hrow => ⟨_, hrow, List.getElem?_set_self hlen⟩)

theorem IndexesAgree.of_unchanged (h : t.IndexesAgree) (hsame : Unchanged t t') :
    t'.IndexesAgree := by
  intro I hI
  rw [hsame.1]
  exact h I (hsame.2 ▸ hI)

/-- Nothing is spoilt where the live rows are what they were. -/
theorem Unchanged.not_spoilt (h : Unchanged t t') : ¬ Spoilt t a t' := by
  rintro ⟨-, -, rid, old, c, f, hold, -, hne, hcases⟩
  rw [h.1, hold] at hcases
  rcases hcases with hnone | ⟨row, hrow, hval⟩
  · cases hnone
  · cases hrow
    exact hne hval

/-- **The other direction**, for one assignment. -/
theorem idle_of_unchanged (hwf : t.heap.WellFormed t.ids) (hagree : t.IndexesAgree)
    {selected : Option (List RowId)} {rounds : ℕ}
    (h : t.executeUpdate [a] selected rounds = some (t', b)) (hsame : Unchanged t t') :
    (TableStatement.update [a] selected rounds).Meets Idle t := by
  have hrows : updateRows selected rounds t a = some (t', b) := Loops.forEach_singleton.mp h
  refine ⟨?_, fun _ _ => trivial⟩
  have hround : ∀ s rid s' b,
      (s.heap.WellFormed s.ids ∧ Unchanged t s ∧ s.schema = t.schema) →
      updateRow a s rid = some (s', b) →
      Idle a s rid ∧ (s'.heap.WellFormed s'.ids ∧ Unchanged t s' ∧ s'.schema = t.schema) ∨
        b = true ∧ Spoilt t a s' := by
    rintro s rid s' b ⟨hwf, hs, hschema⟩ hrow
    refine (idle_or_spoilt hwf (hagree.of_unchanged hs) hs.1 hschema hrow).imp_left
      (fun hidle => ?_)
    obtain ⟨hs', hwf', hschema'⟩ := hidle.unchanged hwf hrow
    exact ⟨hidle, hwf', ⟨hs'.1.trans hs.1, hs'.2.trans hs.2⟩, hschema'.trans hschema⟩
  have hbad : ∀ s rid s' b, Spoilt t a s → updateRow a s rid = some (s', b) → Spoilt t a s' :=
    fun s rid s' b hs hrow => hs.updateRow hrow
  have hstart : t.heap.WellFormed t.ids ∧ Unchanged t t ∧ t.schema = t.schema :=
    ⟨hwf, ⟨rfl, rfl⟩, rfl⟩
  cases selected with
  | some rids => exact Loops.ForEach.meets_of_not_bad hround hbad hstart hrows hsame.not_spoilt
  | none => exact Loops.Scan.meets_of_not_bad hround hbad hstart hrows hsame.not_spoilt

/-- **When a statement that fails changes nothing**: an `INSERT` always, an
`UPDATE` where the rounds before the one that fails had nothing to write. For
one assignment, on a table whose indexes agree with its heap, exactly
then. -/
theorem unchanged_of_failed (hwf : t.heap.WellFormed t.ids) :
    (∀ values t', t.executeInsert values = some (t', false) → Unchanged t t') ∧
    ∀ assignments selected rounds t',
      t.executeUpdate assignments selected rounds = some (t', false) →
      ((TableStatement.update assignments selected rounds).Meets Idle t → Unchanged t t') ∧
      (t.IndexesAgree → assignments.length = 1 → Unchanged t t' →
        (TableStatement.update assignments selected rounds).Meets Idle t) := by
  refine ⟨fun values t' h => unchanged_of_executeInsert hwf h,
    fun assignments selected rounds t' h => ⟨fun hidle => unchanged_of_idle hwf hidle h, ?_⟩⟩
  intro hagree hone hsame
  obtain ⟨a, rfl⟩ := List.length_eq_one_iff.mp hone
  exact idle_of_unchanged hwf hagree h hsame

/-- `a = value`. -/
def setA (value : Int32) : Assignment := ⟨[97], .number value 0⟩

/-- With the rows `(1, 1)` and `(2, 1)`, `update t set a = 2` stops in its
first round. -/
theorem runAB_blocked :
    (runAB [insertAB 1 1, insertAB 2 1]).bind (fun r => (r.2.step (.update [setA 2] none 3)).map
        (fun u => (r.2.heap.begin, (r.2.heap.live ⟨2, 0⟩).bind (r.2.newRow (setA 2)),
          duplicate [.integer 2, .integer 1]
            (r.2.indexes.filter (fun I => I.startsWith r.2.schema [97])), u.2)))
      = some (some ⟨2, 0⟩, some (some [.integer 2, .integer 1]), some true, false) := by
  decide +kernel

/-- It changes nothing. -/
theorem unchanged_of_failed_blocked : ∃ t₀ t t', runAB [insertAB 1 1, insertAB 2 1] = some (t₀, t) ∧
    t.step (.update [setA 2] none 3) = some (t', false) ∧ Unchanged t t' := by
  obtain ⟨⟨t₀, t⟩, hrun, hout⟩ := Option.bind_eq_some_iff.mp runAB_blocked
  obtain ⟨⟨t', b⟩, hstep, hout⟩ := Option.map_eq_some_iff.mp hout
  obtain ⟨hbegin, hnew, hblocked, rfl⟩ := by simpa only [Prod.mk.injEq] using hout
  have hconsistent : t.Consistent :=
    consistent_of_runAB (List.forall_mem_cons.mpr
      ⟨⟨_, rfl⟩, List.forall_mem_singleton.mpr ⟨_, rfl⟩⟩)
      hrun
  have hidle : Idle (setA 2) t ⟨2, 0⟩ := by
    intro old new hold hnew'
    rw [hold, Option.bind_some, hnew'] at hnew
    cases hnew
    exact .inl hblocked
  have hmeets : (TableStatement.update [setA 2] none 3).Meets Idle t := by
    refine ⟨?_, fun _ _ => trivial⟩
    show Loops.Scan.Meets _ _ _ 3 t t.heap.begin
    rw [hbegin]
    refine ⟨hidle, fun s hs => ?_⟩
    -- the round does not succeed
    rcases updateRow_cases hconsistent.wellFormed hs with
      ⟨⟨⟩, -⟩ | ⟨-, old, new, hold, hnew', hcheck, -⟩
    rw [hold, Option.bind_some, hnew'] at hnew
    cases hnew
    exact absurd hblocked hcheck.not_blocked
  exact ⟨t₀, t, t', hrun, hstep,
    ((unchanged_of_failed hconsistent.wellFormed).2 _ _ _ _ hstep).1 hmeets⟩

/-- With the rows `(1, 1)` and `(2, 1)`, `update t set a = 3` fails in its
second round. -/
theorem runAB_half :
    (runAB [insertAB 1 1, insertAB 2 1]).bind (fun r => (r.2.step (.update [setA 3] none 3)).map
        (fun u => (r.2.heap.live ⟨2, 0⟩, u.1.heap.live ⟨2, 0⟩, u.2)))
      = some (some [.integer 1, .integer 1], some [.integer 3, .integer 1], false) := by
  decide +kernel

/-- The first row has been changed then. -/
theorem not_unchanged_of_half : ∃ t₀ t t', runAB [insertAB 1 1, insertAB 2 1] = some (t₀, t) ∧
    t.step (.update [setA 3] none 3) = some (t', false) ∧ ¬ Unchanged t t' := by
  obtain ⟨⟨t₀, t⟩, hrun, hout⟩ := Option.bind_eq_some_iff.mp runAB_half
  obtain ⟨⟨t', b⟩, hstep, hout⟩ := Option.map_eq_some_iff.mp hout
  obtain ⟨hlive, hlive', rfl⟩ := by simpa only [Prod.mk.injEq] using hout
  refine ⟨t₀, t, t', hrun, hstep, fun hsame => ?_⟩
  rw [hsame.1, hlive] at hlive'
  exact absurd hlive' (by decide)

end TableInfo

end MiniSql
