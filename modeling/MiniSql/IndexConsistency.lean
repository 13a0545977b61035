import MiniSql.KeyIndex
import MiniSql.Machine
import MiniSql.StatementEffects

/-!
# Indexes and heap

Every index of a table is to map the key of each live row to its row id, and
nothing else (`TableInfo.IndexesAgree`). An insertion and a deletion keep this.
Three things do not:

* `CREATE INDEX` on a table with rows: the new index has no entries;
* an update that moves a row to another page: the indexes have its old row id;
* an update to a key that an index which is not looked into has already: the
  old key is removed and the new one is not inserted.

`Statement.Keeps` rules these out and nothing else, and then the indexes agree
with the heap in every state that statements lead to.
-/

namespace MiniSql

namespace TableInfo

/-- Every index maps the keys of the live rows to their row ids, and nothing
else. -/
def IndexesAgree (t : TableInfo) : Prop :=
  ∀ I ∈ t.indexes, KeyIndex.Agrees I.key t.heap.live I.container

/-- The updated row stays where it is, if there are indexes and the round is not refused. -/
def RowStays (a : Assignment) (t : TableInfo) (rid : RowId) : Prop :=
  t.indexes ≠ [] → ∀ old new, t.heap.live rid = some old → t.newRow a old = some (some new) →
    ¬ t.Blocked a new → t.heap.Fits new rid

/-- A table whose indexes agree with its heap. -/
structure Consistent (t : TableInfo) : Prop where
  wellFormed : t.heap.WellFormed t.ids
  agree : t.IndexesAgree

variable {t t' : TableInfo} {rid : RowId} {b : Bool}

theorem Consistent.executeInsert (ht : t.Consistent) {values : List Literal}
    (h : t.executeInsert values = some (t', b)) : t'.Consistent := by
  rcases executeInsert_cases ht.wellFormed h with hsame | ⟨-, row, rid, hfresh, hadd⟩
  · refine ⟨hsame.wellFormed, hsame.forall_indexes (P := KeyIndex.Agrees) ?_⟩
    rintro I hI c rfl
    exact ht.agree I hI
  · refine ⟨hadd.wellFormed, hadd.forall_indexes (P := KeyIndex.Agrees) ?_⟩
    rintro I hI c ⟨k, hk, hfree, rfl⟩
    exact (ht.agree I hI).insert hk hfree hfresh

theorem Consistent.deleteRow (ht : t.Consistent) (h : t.deleteRow rid = some (t', b)) :
    t'.Consistent := by
  obtain ⟨row, hlive, hdrop⟩ := deleteRow_cases ht.wellFormed h
  refine ⟨hdrop.wellFormed, hdrop.forall_indexes (P := KeyIndex.Agrees) ?_⟩
  rintro I hI c ⟨k, hk, rfl⟩
  exact (ht.agree I hI).remove hlive hk

/-- Without indexes there is nothing to agree. -/
theorem Becomes.consistent_of_nil {live : RowId → Option (List Field)}
    {R : IndexInfo → Entries → Prop} (h : t.Becomes t' live R) (hnil : t.indexes = []) :
    t'.Consistent := by
  refine ⟨h.wellFormed, fun I hI => ?_⟩
  have hmaps := h.sameColumns.2
  rw [hnil] at hmaps
  rw [List.map_eq_nil_iff.mp hmaps] at hI
  cases hI

/-- A row that stays is replaced in the heap and in the indexes. -/
theorem Consistent.updateRow (ht : t.Consistent) {a : Assignment}
    (hcond : ChecksAll a t rid ∧ RowStays a t rid) (h : t.updateRow a rid = some (t', b)) :
    t'.Consistent := by
  rcases updateRow_cases ht.wellFormed h with
    ⟨-, rfl, -⟩ | ⟨-, old, new, hlive, hnew, hcheck, hin | ⟨hfit, hout⟩⟩
  · exact ht
  · refine ⟨hin.wellFormed, hin.forall_indexes (P := KeyIndex.Agrees) ?_⟩
    rintro I hI c ⟨k, k', hk, hk', hc⟩
    have hfree := hcond.1.free hcheck hlive hnew hI hk hk'
    have hagree := ((ht.agree I hI).remove hlive hk).insert hk' (update_none_of_free hfree)
      (Function.update_self ..)
    rw [Function.update_idem] at hagree
    rwa [hc hfree]
  · by_cases hnil : t.indexes = []
    · rcases hout with hlost | ⟨rid', -, hmoved⟩
      · exact hlost.consistent_of_nil hnil
      · exact hmoved.consistent_of_nil hnil
    · exact absurd (hcond.2 hnil old new hlive hnew hcheck.not_blocked) hfit

/-- **What the statements about rows keep.** -/
theorem Consistent.step (ht : t.Consistent) {st : TableStatement}
    (hmeets : st.Meets (fun a t rid => ChecksAll a t rid ∧ RowStays a t rid) t)
    (h : t.step st = some (t', b)) : t'.Consistent :=
  step_invariant (P := Consistent) (fun _ _ _ _ ht h => ht.executeInsert h)
    (fun _ _ _ _ ht h => ht.deleteRow h) (fun _ _ _ _ _ ht hcond h => ht.updateRow hcond h)
    ht hmeets h

theorem consistent_create {ids : PageIds} {name : StdString} {columns : List Column}
    {primaryKeys : List StdString} (h : create ids name columns primaryKeys = some t) :
    t.Consistent := by
  obtain ⟨-, hids, hheap, hempty, -⟩ := create_eq_some h
  refine ⟨by rw [hheap, hids]; exact TableHeap.wellFormed_create, fun I hI => ?_⟩
  rw [hheap]
  exact KeyIndex.agrees_empty (fun _ => TableHeap.live_create) (fun k => by rw [hempty I hI])

/-- A new index agrees with a heap without rows. -/
theorem Consistent.createIndex (ht : t.Consistent) {name : StdString} {keys : List StdString}
    (hempty : ∀ rid, t.heap.live rid = none) (h : t.createIndex name keys = some t') :
    t'.Consistent := by
  obtain ⟨keyMap, -, rfl⟩ := createIndex_eq_some h
  refine ⟨ht.wellFormed, fun I hI => ?_⟩
  rcases List.mem_append.mp hI with hI | hI
  · exact ht.agree I hI
  · rw [List.mem_singleton] at hI
    rw [hI]
    exact KeyIndex.agrees_empty hempty (fun _ => rfl)

end TableInfo

open TableInfo

/-- The statement does not succeed in creating an index on a table with rows, and every
round of an update that is not refused would pass the check that the code leaves out and, on
a table with indexes, leaves the row in its page. -/
def Statement.Keeps (c : Catalog) : Statement → Prop
  | .createTable _ _ _ => True
  | .createIndex name table columns => (c.executeCreateIndex name table columns).2 = true →
    ∀ t, c table = some t → ∀ rid, t.heap.live rid = none
  | .on table st =>
    ∀ t, c table = some t → st.Meets (fun a t rid => ChecksAll a t rid ∧ RowStays a t rid) t

namespace Catalog

variable {ids : StdString → PageIds} {c c' : Catalog}

/-- All tables are consistent. -/
def Consistent (c : Catalog) : Prop := ∀ name t, c name = some t → t.Consistent

theorem Consistent.update (hc : c.Consistent) {name : StdString} {t : TableInfo}
    (ht : t.Consistent) : Catalog.Consistent (Function.update c name (some t)) := by
  intro name' t' h
  by_cases e : name' = name
  · rw [e, Function.update_self] at h
    cases h
    exact ht
  · rw [Function.update_of_ne e] at h
    exact hc name' t' h

theorem Consistent.step (hc : c.Consistent) {st : Statement} {b : Bool} (hkeeps : st.Keeps c)
    (h : c.step ids st = some (c', b)) : c'.Consistent := by
  cases st with
  | createTable name columns primaryKeys =>
    rcases executeCreateTable_cases h with ⟨rfl, -⟩ | ⟨cols, t, ht, rfl⟩
    · exact hc
    · exact hc.update (consistent_create ht)
  | createIndex name table columns =>
    have hstep := Option.some.inj h
    rcases executeCreateIndex_cases hstep with rfl | ⟨hb, t, t', names, ht, hnew, rfl⟩
    · exact hc
    · have hsucceeds : (c.executeCreateIndex name table columns).2 = true := by rw [hstep, hb]
      exact hc.update ((hc table t ht).createIndex (hkeeps hsucceeds t ht) hnew)
  | on table st =>
    rcases step_on_cases h with rfl | ⟨t, t', ht, hstep, rfl⟩
    · exact hc
    · exact hc.update ((hc table t ht).step (hkeeps t ht) hstep)

/-- **Indexes and heap agree** after every sequence of statements of which none
creates an index on rows, moves a row or gives one a key that an index has
unseen. -/
theorem indexesAgree_of_keeps (hrun : Machine.Reaches (step ids) Statement.Keeps (fun _ => none) c)
    {name : StdString} {t : TableInfo} (ht : c name = some t) : t.IndexesAgree := by
  have hc : c.Consistent := hrun.invariant (I := Catalog.Consistent) (fun _ _ h => by cases h)
    (fun _ _ _ _ hc hkeeps h => hc.step hkeeps h)
  exact (hc name t ht).agree

/-- `create table t(a int unique)`, a row `(1)` and
`create index i on t(a)`. -/
def indexOnRows : List Statement :=
  [.createTable [116] [⟨[97], .int, true⟩] [], .on [116] (.insert [.number 1 0]),
    .createIndex [105] [116] [[97]]]

/-- All three succeed. The new index has no entry for the row, which the other
one has. -/
theorem run_indexOnRows :
    (Machine.run (step (fun _ => pagesFrom2)) (fun _ => none) indexOnRows).bind
        (fun r => (r.1 [116]).map (fun t => (r.2, t.heap.live ⟨2, 0⟩,
          t.indexes.map (fun I => (I.key [.integer 1]).bind I.container))))
      = some ([true, true, true], some [.integer 1], [some ⟨2, 0⟩, none]) := by
  decide +kernel

/-- An index that is created on rows does not have their keys. -/
theorem not_indexesAgree_of_createIndex :
    ∃ c t, Machine.run (step (fun _ => pagesFrom2)) (fun _ => none) indexOnRows
        = some (c, [true, true, true]) ∧ c [116] = some t ∧ ¬ t.IndexesAgree := by
  obtain ⟨⟨c, os⟩, hrun, hout⟩ := Option.bind_eq_some_iff.mp run_indexOnRows
  obtain ⟨t, ht, hout⟩ := Option.map_eq_some_iff.mp hout
  obtain ⟨rfl, hlive, hkeys⟩ := by simpa only [Prod.mk.injEq] using hout
  refine ⟨c, t, hrun, ht, fun hagree => ?_⟩
  -- the second index, whose entry for the row is missing
  have hmem : none ∈ t.indexes.map (fun I => (I.key [.integer 1]).bind I.container) := by
    rw [hkeys]
    decide
  obtain ⟨I, hI, hnone⟩ := List.mem_map.mp hmem
  obtain ⟨k, hk, hentry⟩ := (hagree I hI).1 _ _ hlive
  rw [hk, Option.bind_some, hentry] at hnone
  cases hnone

/-- The same statements with the index before the row. -/
def indexBeforeRows : List Statement :=
  [.createTable [116] [⟨[97], .int, true⟩] [], .createIndex [105] [116] [[97]],
    .on [116] (.insert [.number 1 0])]

/-- `update t set a = 2 where …`, with the row selected. -/
def setATo2 : Statement := .on [116] (.update [⟨[97], .number 2 0⟩] (some [⟨2, 0⟩]) 0)

theorem keeps_indexBeforeRows :
    Machine.Meets (step (fun _ => pagesFrom2)) Statement.Keeps (fun _ => none) indexBeforeRows := by
  refine ⟨trivial, fun c b hstep => ⟨fun _ t ht rid => ?_, fun _ _ _ =>
    ⟨fun _ _ => trivial, fun _ _ _ => trivial⟩⟩⟩
  have hcreate : executeCreateTable (fun _ => pagesFrom2) (fun _ => none) [116]
    [⟨[97], .int, true⟩] [] = some (c, b) := hstep
  rcases executeCreateTable_cases hcreate with ⟨rfl, -⟩ | ⟨cols, t₁, hnew, rfl⟩
  · cases ht
  · rw [Function.update_self] at ht
    cases ht
    obtain ⟨-, -, hheap, -⟩ := create_eq_some hnew
    rw [hheap]
    exact TableHeap.live_create

set_option synthInstance.maxSize 400 in
theorem run_indexBeforeRows :
    (Machine.run (step (fun _ => pagesFrom2)) (fun _ => none) indexBeforeRows).bind
        (fun r => (r.1 [116]).bind (fun t => (step (fun _ => pagesFrom2) r.1 setATo2).bind
          (fun r' => (r'.1 [116]).map (fun t' => (t.heap.live ⟨2, 0⟩,
            t.indexes.map (fun I => I.startsWith t.schema [97]),
            t.newRow ⟨[97], .number 2 0⟩ [.integer 1], t'.heap.live ⟨2, 0⟩)))))
      = some (some [.integer 1], [true, true], some (some [.integer 2]),
          some [.integer 2]) := by
  decide +kernel

/-- Both indexes agree with the heap after the row `(1)` has become `(2)`. -/
theorem indexesAgree_of_keeps_update :
    ∃ t : TableInfo, t.heap.live ⟨2, 0⟩ = some [.integer 2] ∧ t.IndexesAgree := by
  obtain ⟨⟨c, os⟩, hrun, hout⟩ := Option.bind_eq_some_iff.mp run_indexBeforeRows
  obtain ⟨t, ht, hout⟩ := Option.bind_eq_some_iff.mp hout
  obtain ⟨⟨c', b⟩, hstep, hout⟩ := Option.bind_eq_some_iff.mp hout
  obtain ⟨t', ht', hout⟩ := Option.map_eq_some_iff.mp hout
  obtain ⟨hlive, hstarts, hnew, hlive'⟩ := by simpa only [Prod.mk.injEq] using hout
  have hkeeps : setATo2.Keeps c := by
    intro t₁ ht₁
    cases ht.symm.trans ht₁
    refine ⟨⟨⟨fun old new _ _ _ I hI hstart => ?_, ?_⟩, fun _ _ => trivial⟩, fun _ _ => trivial⟩
    · have hmem : I.startsWith t.schema [97] ∈ [true, true] := by
        rw [← hstarts]
        exact List.mem_map.mpr ⟨I, hI, rfl⟩
      change I.startsWith t.schema [97] = false at hstart
      rw [hstart] at hmem
      exact absurd hmem (by decide)
    · intro _ old new hold hnew' _ p old' hp hs
      rw [hlive] at hold
      cases hold
      rw [hnew] at hnew'
      cases hnew'
      rw [TableHeap.live_eq hp, TableHeap.getTuple_eq_some.mpr hs] at hlive
      cases hlive
      exact Nat.le_add_left _ _
  have hreach := (Machine.Reaches.init.run keeps_indexBeforeRows hrun).next hkeeps hstep
  exact ⟨t', hlive', indexesAgree_of_keeps hreach ht'⟩

end Catalog

end MiniSql
