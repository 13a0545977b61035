import MiniSql.ExecuteEngine
import Mathlib.Data.List.Forall2

/-!
# What the statements do

What one insertion, one round of `ExecuteDelete` and one round of
`ExecuteUpdate` do to the live rows of a table and to the entries of its
indexes. All that is said later of the statements is derived from this: the
functions themselves are not opened again.

`TableInfo.Becomes` says what the live rows become and how each index is
related to what it becomes; the relations are `IndexInfo.Adds`,
`IndexInfo.Drops` and `IndexInfo.Swaps`.
-/

namespace MiniSql

variable {α β : Type}

/-- What `mapM` does to each element. -/
theorem forall₂_of_mapM {f : α → Option β} {l : List α} {l' : List β} (h : l.mapM f = some l') :
    List.Forall₂ (fun a b => f a = some b) l l' := by
  induction l generalizing l' with
  | nil =>
    cases h
    exact .nil
  | cons a l ih =>
    rw [List.mapM_cons] at h
    obtain ⟨b, hb, hrest⟩ := Option.bind_eq_some_iff.mp h
    obtain ⟨bs, hbs, hl'⟩ := Option.bind_eq_some_iff.mp hrest
    cases hl'
    exact .cons hb (ih hbs)

theorem exists_mem_of_forall₂ {R : α → β → Prop} {l : List α} {l' : List β}
    (h : List.Forall₂ R l l') {b : β} (hb : b ∈ l') : ∃ a ∈ l, R a b := by
  induction h with
  | nil => cases hb
  | cons hab _ ih =>
    rcases List.mem_cons.mp hb with rfl | hb
    · exact ⟨_, List.mem_cons_self, hab⟩
    · obtain ⟨a, ha, hR⟩ := ih hb
      exact ⟨a, List.mem_cons_of_mem _ ha, hR⟩

/-- The entries of an index. -/
abbrev Entries := List UInt8 → Option RowId

namespace IndexInfo

variable {I I' : IndexInfo} {row old new : List Field} {rid : RowId}

/-- The entries with the key of a row added. -/
def Adds (row : List Field) (rid : RowId) (I : IndexInfo) (c : Entries) : Prop :=
  ∃ k, I.key row = some k ∧ I.container k = none ∧
    c = Function.update I.container k (some rid)

/-- The entries without the key of a row. -/
def Drops (row : List Field) (I : IndexInfo) (c : Entries) : Prop :=
  ∃ k, I.key row = some k ∧ c = Function.update I.container k none

/-- The entries with the key of a row replaced, provided the new key is the
old one or is new to the index. -/
def Swaps (old new : List Field) (rid : RowId) (I : IndexInfo) (c : Entries) : Prop :=
  ∃ k k', I.key old = some k ∧ I.key new = some k' ∧
    (k' = k ∨ I.container k' = none →
      c = Function.update (Function.update I.container k none) k' (some rid))

/-- The index keeps its name and its columns, and its entries change as the
relation says. -/
def With (R : IndexInfo → Entries → Prop) (I I' : IndexInfo) : Prop :=
  I' = { I with container := I'.container } ∧ R I I'.container

theorem With.keyMap {R : IndexInfo → Entries → Prop} (h : With R I I') : I'.keyMap = I.keyMap := by
  rw [h.1]

theorem With.key {R : IndexInfo → Entries → Prop} (h : With R I I') : I'.key = I.key := by
  funext row
  rw [IndexInfo.key, IndexInfo.key, h.keyMap]

/-- No index has the key of the row. -/
theorem of_duplicate_eq_false {Is : List IndexInfo} (h : duplicate row Is = some false) :
    ∀ I ∈ Is, ∃ k, I.key row = some k ∧ I.container k = none := by
  induction Is with
  | nil => nofun
  | cons I Is ih =>
    unfold duplicate at h
    split at h
    · cases h
    · rename_i k hk
      split at h
      · cases h
      · rename_i hscan
        rintro J (_ | ⟨_, hJ⟩)
        · exact ⟨k, hk, Option.not_isSome_iff_eq_none.mp hscan⟩
        · exact ih h J hJ

/-- The keys are new to the indexes: every insertion of an entry succeeds. -/
theorem adds_of_insertEntries {Is Is' : List IndexInfo} {b : Bool}
    (hfree : ∀ I ∈ Is, ∃ k, I.key row = some k ∧ I.container k = none)
    (h : insertEntries row rid Is = some (Is', b)) :
    b = true ∧ List.Forall₂ (With (Adds row rid)) Is Is' := by
  induction Is generalizing Is' b with
  | nil =>
    cases h
    exact ⟨rfl, .nil⟩
  | cons I Is ih =>
    obtain ⟨k, hk, hnone⟩ := hfree I List.mem_cons_self
    have hscan : ¬ I.scanKey k = true := by
      rw [scanKey, hnone]
      nofun
    unfold insertEntries at h
    simp only [hk, insertEntry, if_neg hscan] at h
    split at h
    · cases h
    · rename_i I' heq
      split at heq <;> cases heq
    · rename_i I' heq
      split at heq
      · cases heq
      · cases heq
        obtain ⟨⟨Js, b'⟩, hJs, hr⟩ := Option.map_eq_some_iff.mp h
        cases hr
        obtain ⟨hb, hall⟩ := ih (fun J hJ => hfree J (List.mem_cons_of_mem _ hJ)) hJs
        exact ⟨hb, .cons ⟨rfl, k, hk, hnone, rfl⟩ hall⟩

theorem drops_of_removeRow (h : removeRow row I = some I') : With (Drops row) I I' := by
  obtain ⟨k, hk, rfl⟩ := Option.map_eq_some_iff.mp h
  exact ⟨rfl, k, hk, rfl⟩

theorem swaps_of_rewriteRow (h : rewriteRow old new rid I = some I') :
    With (Swaps old new rid) I I' := by
  unfold rewriteRow at h
  split at h
  · rename_i k k' hk hk'
    obtain ⟨⟨J, b⟩, hJ, rfl⟩ := Option.map_eq_some_iff.mp h
    unfold insertEntry at hJ
    split at hJ
    · cases hJ
    split at hJ
    · rename_i hscan
      cases hJ
      refine ⟨rfl, k, k', hk, hk', fun hcond => ?_⟩
      -- the key is still there, so it is not the old one and not new
      have hfound : (Function.update I.container k none k').isSome = true := hscan
      have hne : k' ≠ k := fun e => by
        rw [e, Function.update_self] at hfound
        cases hfound
      rw [Function.update_of_ne hne, hcond.resolve_left hne] at hfound
      cases hfound
    · cases hJ
      exact ⟨rfl, k, k', hk, hk', fun _ => rfl⟩
  · cases h

end IndexInfo

namespace TableInfo

open IndexInfo

variable {t t' : TableInfo} {rid : RowId} {row old new : List Field} {b : Bool}

/-- The table that a step leads to: the same columns, the given live rows, and
indexes that have changed as the relation says. -/
structure Becomes (t t' : TableInfo) (live : RowId → Option (List Field))
    (R : IndexInfo → Entries → Prop) : Prop where
  schema : t'.schema = t.schema
  ids : t'.ids = t.ids
  wellFormed : t'.heap.WellFormed t'.ids
  live : t'.heap.live = live
  indexes : List.Forall₂ (With R) t.indexes t'.indexes

/-- The same columns, of the table and of its indexes. -/
def SameColumns (t' t : TableInfo) : Prop :=
  t'.schema = t.schema ∧ t'.indexes.map keyMap = t.indexes.map keyMap

theorem SameColumns.trans {t'' : TableInfo} (h : t''.SameColumns t') (h' : t'.SameColumns t) :
    t''.SameColumns t :=
  ⟨h.1.trans h'.1, h.2.trans h'.2⟩

/-- No step changes the columns. -/
theorem Becomes.sameColumns {live : RowId → Option (List Field)} {R : IndexInfo → Entries → Prop}
    (h : t.Becomes t' live R) : t'.SameColumns t := by
  refine ⟨h.schema, ?_⟩
  have hall := h.indexes
  generalize t.indexes = Is, t'.indexes = Is' at hall
  induction hall with
  | nil => rfl
  | cons hI _ ih => rw [List.map_cons, List.map_cons, ih, hI.keyMap]

/-- **What holds of every index** after a step: it is shown of the entries
that each index changes to. -/
theorem Becomes.forall_indexes {live : RowId → Option (List Field)}
    {R : IndexInfo → Entries → Prop} (h : t.Becomes t' live R)
    {P : (List Field → Option (List UInt8)) → (RowId → Option (List Field)) → Entries → Prop}
    (hP : ∀ I ∈ t.indexes, ∀ c, R I c → P I.key live c) :
    ∀ I' ∈ t'.indexes, P I'.key t'.heap.live I'.container := by
  intro I' hI'
  obtain ⟨I, hI, hwith⟩ := exists_mem_of_forall₂ h.indexes hI'
  rw [hwith.key, h.live]
  exact hP I hI _ hwith.2

/-- Nothing that counts changes. -/
def Stays (I : IndexInfo) (c : Entries) : Prop := c = I.container

theorem becomes_self {heap : TableHeap} (hwf : heap.WellFormed t.ids)
    (hlive : heap.live = t.heap.live) :
    t.Becomes { t with heap := heap } t.heap.live Stays :=
  ⟨rfl, rfl, hwf, hlive, List.forall₂_same.mpr (fun _ _ => ⟨rfl, rfl⟩)⟩

/-- The indexes have stayed as they were. -/
theorem Becomes.indexes_eq {live : RowId → Option (List Field)} {R : IndexInfo → Entries → Prop}
    (h : t.Becomes t' live R) (hR : ∀ I ∈ t.indexes, ∀ c, R I c → Stays I c) :
    t'.indexes = t.indexes := by
  have hall := h.indexes
  generalize t.indexes = Is, t'.indexes = Is' at hall hR
  induction hall with
  | nil => rfl
  | @cons I I' Is Is' hI _ ih =>
    have hcontainer : I'.container = I.container := hR I List.mem_cons_self _ hI.2
    rw [ih (fun J hJ => hR J (List.mem_cons_of_mem I hJ)), hI.1, hcontainer]

/-- **`ExecuteInsert`** succeeds and adds one row, with its key in every index,
or changes nothing. -/
theorem executeInsert_cases (hwf : t.heap.WellFormed t.ids) {values : List Literal}
    (h : t.executeInsert values = some (t', b)) :
    t.Becomes t' t.heap.live Stays ∨
      b = true ∧ ∃ row rid, t.heap.live rid = none ∧
        t.Becomes t' (Function.update t.heap.live rid (some row)) (Adds row rid) := by
  unfold executeInsert at h
  split at h
  · cases h
  · cases h
    exact .inl (becomes_self hwf rfl)
  rename_i row _
  split at h
  · cases h
  · cases h
    exact .inl (becomes_self hwf rfl)
  rename_i hdup
  split at h
  · cases h
  · rename_i heap hins
    cases h
    obtain ⟨hwf', hcases⟩ := hwf.insertTuple hins
    rcases hcases with ⟨-, hlive⟩ | ⟨rid, hr, -⟩
    · exact .inl (becomes_self hwf' hlive)
    · cases hr
  · rename_i heap rid hins
    obtain ⟨hwf', hcases⟩ := hwf.insertTuple hins
    rcases hcases with ⟨hr, -⟩ | ⟨rid', hr, -, hfree, hlive⟩
    · cases hr
    cases hr
    obtain ⟨⟨Is, b'⟩, hIs, hr⟩ := Option.map_eq_some_iff.mp h
    cases hr
    obtain ⟨hb, hall⟩ := adds_of_insertEntries (of_duplicate_eq_false hdup) hIs
    exact .inr ⟨hb, row, rid, hfree, rfl, rfl, hwf', hlive, hall⟩

/-- **One round of `ExecuteDelete`** takes one row away, with its key in every
index. -/
theorem deleteRow_cases (hwf : t.heap.WellFormed t.ids) (h : t.deleteRow rid = some (t', b)) :
    ∃ row, t.heap.live rid = some row ∧
      t.Becomes t' (Function.update t.heap.live rid none) (Drops row) := by
  unfold deleteRow at h
  split at h
  · rename_i row hget
    split at h
    · rename_i Is heap hIs hdel
      cases h
      obtain ⟨hwf', hlive⟩ := hwf.applyDelete hdel
      exact ⟨row, TableHeap.getTuple_eq hget, rfl, rfl, hwf', hlive,
        (forall₂_of_mapM hIs).imp (fun _ _ => drops_of_removeRow)⟩
    · cases h
  · cases h

/-- An assignment needs a row. -/
theorem newRow_nil {a : Assignment} {r : List Field} : t.newRow a [] ≠ some (some r) := by
  intro h
  unfold newRow at h
  split at h
  · cases h
  split at h
  · cases h
  · cases h
  · cases h
  · rw [List.length_nil, if_neg (Nat.not_lt_zero _)] at h
    cases h

/-- The column that an assignment is about and the field that it puts there. -/
def Sets (s : Schema) (a : Assignment) (c : ℕ) (f : Field) : Prop :=
  s.getColumnIndex a.column = some c ∧
    ∃ col, s.columns[c]? = some col ∧ col.updateField a.value = some (some f)

theorem Sets.unique {s : Schema} {a : Assignment} {c c' : ℕ} {f f' : Field} (h : Sets s a c f)
    (h' : Sets s a c' f') : c = c' ∧ f = f' := by
  obtain ⟨hc, col, hcol, hf⟩ := h
  obtain ⟨hc', col', hcol', hf'⟩ := h'
  rw [hc] at hc'
  cases hc'
  rw [hcol] at hcol'
  cases hcol'
  rw [hf] at hf'
  cases hf'
  exact ⟨rfl, rfl⟩

/-- The new row is the old one with one field replaced. -/
theorem newRow_eq_some {a : Assignment} : t.newRow a old = some (some new) ↔
    ∃ c f, Sets t.schema a c f ∧ c < old.length ∧ new = old.set c f := by
  unfold newRow Sets
  cases hc : t.schema.getColumnIndex a.column with
  | none => exact iff_of_false nofun (by rintro ⟨c, f, ⟨⟨⟩, -⟩, -⟩)
  | some c =>
    simp only [Option.some.injEq]
    cases hcol : t.schema.columns[c]? with
    | none =>
      refine iff_of_false nofun ?_
      rintro ⟨c', f, ⟨rfl, col, hcol', -⟩, -⟩
      rw [hcol] at hcol'
      cases hcol'
    | some col =>
      simp only [Option.map_some]
      cases hf : col.updateField a.value with
      | none =>
        refine iff_of_false nofun ?_
        rintro ⟨c', f, ⟨rfl, col', hcol', hf'⟩, -⟩
        rw [hcol] at hcol'
        cases hcol'
        rw [hf] at hf'
        cases hf'
      | some r =>
        cases r with
        | none =>
          refine iff_of_false nofun ?_
          rintro ⟨c', f, ⟨rfl, col', hcol', hf'⟩, -⟩
          rw [hcol] at hcol'
          cases hcol'
          rw [hf] at hf'
          cases hf'
        | some f =>
          have hsets : Sets t.schema a c f := ⟨hc, col, hcol, hf⟩
          constructor
          · intro h
            by_cases hlen : c < old.length
            · simp only [if_pos hlen] at h
              cases h
              exact ⟨c, f, ⟨rfl, col, hcol, hf⟩, hlen, rfl⟩
            · simp only [if_neg hlen] at h
              cases h
          · rintro ⟨c', f', ⟨hc', hf'⟩, hlen, rfl⟩
            obtain ⟨rfl, rfl⟩ := hsets.unique ⟨hc.trans (congrArg some hc'), hf'⟩
            exact if_pos hlen

/-- The indexes that a round looks into before it does anything. -/
def Checked (t : TableInfo) (a : Assignment) (new : List Field) : Prop :=
  ∀ I ∈ t.indexes, I.startsWith t.schema a.column = true →
    ∃ k, I.key new = some k ∧ I.container k = none

/-- An index that a round looks into has the new key already. -/
def Blocked (t : TableInfo) (a : Assignment) (new : List Field) : Prop :=
  duplicate new (t.indexes.filter (fun I => I.startsWith t.schema a.column)) = some true

/-- Where every looked-up key is new, no duplicate is found. -/
theorem duplicate_eq_false {row : List Field} {Is : List IndexInfo}
    (h : ∀ I ∈ Is, ∃ k, I.key row = some k ∧ I.container k = none) :
    duplicate row Is = some false := by
  induction Is with
  | nil => rfl
  | cons I Is ih =>
    obtain ⟨k, hk, hnone⟩ := h I List.mem_cons_self
    have hscan : ¬ I.scanKey k = true := by
      rw [scanKey, hnone]
      exact Bool.false_ne_true
    unfold duplicate
    simp only [hk, if_neg hscan]
    exact ih (fun J hJ => h J (List.mem_cons_of_mem I hJ))

theorem Checked.not_blocked {a : Assignment} (h : t.Checked a new) : ¬ t.Blocked a new := by
  intro hblocked
  have hfalse : duplicate new (t.indexes.filter (fun I => I.startsWith t.schema a.column)) =
      some false := duplicate_eq_false (fun I hI =>
    h I (List.mem_filter.mp hI).1 (List.mem_filter.mp hI).2)
  rw [Blocked, hfalse] at hblocked
  cases hblocked

/-- **One round of `ExecuteUpdate`** fails and changes nothing, or updates the
heap, and every index with it. -/
theorem updateRow_eq_some {a : Assignment} (h : t.updateRow a rid = some (t', b)) :
    (b = false ∧ t' = t ∧ ∀ old new, t.heap.live rid = some old →
      t.newRow a old = some (some new) → t.Blocked a new) ∨
    b = true ∧ ∃ old new, t.heap.live rid = some old ∧ t.newRow a old = some (some new) ∧
      t.Checked a new ∧ (t'.schema = t.schema ∧ t'.ids = t.ids) ∧
      List.Forall₂ (With (Swaps old new rid)) t.indexes t'.indexes ∧
      ∃ b', t.heap.updateTuple t.ids new rid = some (t'.heap, b') := by
  unfold updateRow at h
  split at h
  · cases h
  rename_i got hget
  simp only at h
  have hold : ∀ old, t.heap.live rid = some old → got.getD [] = old := fun old hlive => by
    rw [← TableHeap.getTuple_eq hget, hlive]
    rfl
  split at h
  · cases h
  · rename_i hnone
    cases h
    refine .inl ⟨rfl, rfl, fun old new hlive hnew => ?_⟩
    rw [← hold old hlive, hnone] at hnew
    cases hnew
  rename_i new hnew
  split at h
  · cases h
  · rename_i hdup
    cases h
    refine .inl ⟨rfl, rfl, fun old new' hlive hnew' => ?_⟩
    rw [← hold old hlive, hnew] at hnew'
    cases hnew'
    exact hdup
  rename_i hdup
  split at h
  · cases h
  rename_i Is hIs
  obtain ⟨⟨heap, b'⟩, hup, hr⟩ := Option.map_eq_some_iff.mp h
  cases hr
  cases got with
  | none => exact absurd hnew newRow_nil
  | some old =>
    have hcheck : t.Checked a new := fun I hI hstart =>
      of_duplicate_eq_false hdup I (List.mem_filter.mpr ⟨hI, hstart⟩)
    exact .inr ⟨rfl, old, new, TableHeap.getTuple_eq hget, hnew, hcheck, ⟨rfl, rfl⟩,
      (forall₂_of_mapM hIs).imp (fun _ _ => swaps_of_rewriteRow), b', hup⟩

/-- **What a round does to the rows.** A row that does not fit into its page
gets another row id, or is lost, and the indexes are not told. -/
theorem updateRow_cases (hwf : t.heap.WellFormed t.ids) {a : Assignment}
    (h : t.updateRow a rid = some (t', b)) :
    (b = false ∧ t' = t ∧ ∀ old new, t.heap.live rid = some old →
      t.newRow a old = some (some new) → t.Blocked a new) ∨
    b = true ∧ ∃ old new, t.heap.live rid = some old ∧ t.newRow a old = some (some new) ∧
      t.Checked a new ∧
      (t.Becomes t' (Function.update t.heap.live rid (some new)) (Swaps old new rid) ∨
        (¬ t.heap.Fits new rid ∧
          (t.Becomes t' (Function.update t.heap.live rid none) (Swaps old new rid) ∨
            ∃ rid', Function.update t.heap.live rid none rid' = none ∧
              t.Becomes t' (Function.update (Function.update t.heap.live rid none) rid' (some new))
                (Swaps old new rid)))) := by
  rcases updateRow_eq_some h with
    hfail | ⟨hb, old, new, hlive, hnew, hcheck, ⟨hschema, hids⟩, hall, b', hup⟩
  · exact .inl hfail
  obtain ⟨hwf', -, hcases⟩ := hwf.updateTuple hlive hup
  rw [← hids] at hwf'
  refine .inr ⟨hb, old, new, hlive, hnew, hcheck, ?_⟩
  rcases hcases with hin | ⟨hfit, hout | ⟨rid', hfree, hmoved⟩⟩
  · exact .inl ⟨hschema, hids, hwf', hin, hall⟩
  · exact .inr ⟨hfit, .inl ⟨hschema, hids, hwf', hout, hall⟩⟩
  · exact .inr ⟨hfit, .inr ⟨rid', hfree, hschema, hids, hwf', hmoved, hall⟩⟩

/-- The check that a round of an update leaves out would pass: if the round is not
refused, then in an index whose key does not start with the assigned column the new
key is the one of the row itself, or nobody's. -/
def ChecksAll (a : Assignment) (t : TableInfo) (rid : RowId) : Prop :=
  ∀ old new, t.heap.live rid = some old → t.newRow a old = some (some new) →
    ¬ t.Blocked a new → ∀ I ∈ t.indexes, I.startsWith t.schema a.column = false →
      ∀ k, I.key new = some k → I.key old = some k ∨ I.container k = none

/-- **A round and its checks.** With the check that is left out, the new key
is the old one or new to the index, in every index. -/
theorem ChecksAll.free {a : Assignment} {old new : List Field} (hcheck : t.Checked a new)
    (hall : ChecksAll a t rid) (hlive : t.heap.live rid = some old)
    (hnew : t.newRow a old = some (some new)) {I : IndexInfo} (hI : I ∈ t.indexes)
    {k k' : List UInt8} (hk : I.key old = some k) (hk' : I.key new = some k') :
    k' = k ∨ I.container k' = none := by
  by_cases hstart : I.startsWith t.schema a.column = true
  · obtain ⟨k₁, hk₁, hnone⟩ := hcheck I hI hstart
    rw [hk'] at hk₁
    cases hk₁
    exact .inr hnone
  · have hor := hall old new hlive hnew hcheck.not_blocked I hI (Bool.not_eq_true _ ▸ hstart) k' hk'
    rw [hk] at hor
    exact hor.imp_left (fun e => (Option.some.inj e).symm)

/-- A key that is the removed one or new is not in what is left. -/
theorem update_none_of_free {c : Entries} {k k' : List UInt8} (h : k' = k ∨ c k' = none) :
    Function.update c k none k' = none := by
  by_cases e : k' = k
  · rw [e, Function.update_self]
  · rw [Function.update_of_ne e]
    exact h.resolve_left e

/-! ## New tables -/

/-- An index more, without entries. -/
theorem createIndex_eq_some {name : StdString} {keys : List StdString}
    (h : t.createIndex name keys = some t') :
    ∃ keyMap, keys.mapM t.schema.getColumnIndex = some keyMap ∧
      t' = { t with indexes := t.indexes ++ [⟨name, keyMap, fun _ => none⟩] } := by
  unfold createIndex at h
  split at h
  · cases h
  · rename_i keyMap hkeys
    split at h
    · cases h
    · cases h
      exact ⟨keyMap, hkeys, rfl⟩

/-- The indexes of the unique columns come after those that are there. -/
theorem createUniqueIndexes_eq_some {tableName : StdString} {names : List StdString}
    (h : createUniqueIndexes tableName t names = some t') :
    ∃ Is, t' = { t with indexes := t.indexes ++ Is } ∧ (∀ I ∈ Is, I.container = fun _ => none) ∧
      ∀ n ∈ names, ∃ I ∈ Is, ∃ i, t.schema.getColumnIndex n = some i ∧ I.keyMap = [i] := by
  induction names generalizing t with
  | nil =>
    cases h
    exact ⟨[], by rw [List.append_nil], nofun, nofun⟩
  | cons n names ih =>
    unfold createUniqueIndexes at h
    split at h
    · cases h
    · rename_i t₁ h₁
      obtain ⟨keyMap, hkeys, rfl⟩ := createIndex_eq_some h₁
      obtain ⟨Is, rfl, hempty, hnames⟩ := ih h
      obtain ⟨i, hi, hrest⟩ := Option.bind_eq_some_iff.mp (List.mapM_cons (m := Option) ▸ hkeys)
      cases hrest
      refine ⟨⟨tableName ++ [95] ++ n, [i], fun _ => none⟩ :: Is, ?_, ?_, ?_⟩
      · exact congrArg (TableInfo.mk t.schema t.ids t.heap) (List.append_assoc t.indexes _ Is)
      · rintro I (_ | ⟨_, hI⟩)
        · rfl
        · exact hempty I hI
      · rintro m (_ | ⟨_, hm⟩)
        · exact ⟨_, List.mem_cons_self, i, hi, rfl⟩
        · obtain ⟨I, hI, hcol⟩ := hnames m hm
          exact ⟨I, List.mem_cons_of_mem _ hI, hcol⟩

/-- **A new table.** It has no rows, its indexes have no entries, and there is
one for the primary key and one for each unique column. -/
theorem create_eq_some {ids : PageIds} {tableName : StdString} {columns : List Column}
    {primaryKeys : List StdString} (h : create ids tableName columns primaryKeys = some t) :
    t.schema = ⟨columns⟩ ∧ t.ids = ids ∧ t.heap = .create ids ∧
      (∀ I ∈ t.indexes, I.container = fun _ => none) ∧
      (primaryKeys ≠ [] → ∀ cols, primaryKeys.mapM t.schema.getColumnIndex = some cols →
        ∃ I ∈ t.indexes, I.keyMap = cols) ∧
      ∀ c ∈ columns, c.unique = true →
        ∃ I ∈ t.indexes, ∃ i, t.schema.getColumnIndex c.name = some i ∧ I.keyMap = [i] := by
  unfold create at h
  simp only at h
  obtain ⟨t₁, ht₁⟩ : ∃ t₁, t₁ =
    if primaryKeys = [] then (⟨⟨columns⟩, ids, .create ids, []⟩ : TableInfo)
      else (createIndex ⟨⟨columns⟩, ids, .create ids, []⟩ (tableName ++ primarySuffix)
        primaryKeys).getD ⟨⟨columns⟩, ids, .create ids, []⟩ := ⟨_, rfl⟩
  rw [← ht₁] at h
  have hnew : t₁.schema = ⟨columns⟩ ∧ t₁.ids = ids ∧ t₁.heap = .create ids ∧
      (∀ I ∈ t₁.indexes, I.container = fun _ => none) ∧
      (primaryKeys ≠ [] → ∀ cols, primaryKeys.mapM t₁.schema.getColumnIndex = some cols →
        ∃ I ∈ t₁.indexes, I.keyMap = cols) := by
    by_cases hpk : primaryKeys = []
    · rw [if_pos hpk] at ht₁
      rw [ht₁]
      exact ⟨rfl, rfl, rfl, nofun, fun hne => absurd hpk hne⟩
    · rw [if_neg hpk] at ht₁
      rcases hcols : primaryKeys.mapM (Schema.getColumnIndex ⟨columns⟩) with _ | cols
      · simp only [createIndex, hcols, Option.getD_none] at ht₁
        rw [ht₁]
        exact ⟨rfl, rfl, rfl, nofun, fun _ cols h => absurd (hcols.symm.trans h) nofun⟩
      · simp only [createIndex, hcols, List.any_nil, Bool.false_eq_true, if_false,
          Option.getD_some, List.nil_append] at ht₁
        rw [ht₁]
        refine ⟨rfl, rfl, rfl, ?_, fun _ cols' h => ?_⟩
        · rintro I (_ | ⟨_, ⟨⟩⟩)
          rfl
        · exact ⟨_, List.mem_singleton_self _, Option.some.inj (hcols.symm.trans h)⟩
  obtain ⟨hschema, hids, hheap, hempty₁, hprimary⟩ := hnew
  obtain ⟨Is, rfl, hempty, hunique⟩ := createUniqueIndexes_eq_some h
  refine ⟨hschema, hids, hheap, ?_, ?_, ?_⟩
  · intro I hI
    exact (List.mem_append.mp hI).elim (hempty₁ I) (hempty I)
  · intro hne cols hcols
    obtain ⟨I, hI, hcol⟩ := hprimary hne cols hcols
    exact ⟨I, List.mem_append_left _ hI, hcol⟩
  · intro c hc huniq
    obtain ⟨I, hI, hcol⟩ := hunique c.name
      (List.mem_map_of_mem (List.mem_filter.mpr ⟨hc, huniq⟩))
    exact ⟨I, List.mem_append_right _ hI, hcol⟩

end TableInfo

namespace Catalog

variable {ids : StdString → PageIds} {c c' : Catalog} {b : Bool}

/-- **`ExecuteCreateTable`** adds a new table, or changes nothing. -/
theorem executeCreateTable_cases {name : StdString} {columns : List ColumnDefinition}
    {primaryKeys : List StdString}
    (h : c.executeCreateTable ids name columns primaryKeys = some (c', b)) :
    (c' = c ∧ b = false) ∨ ∃ cols t, TableInfo.create (ids name) name cols primaryKeys = some t ∧
      c' = Function.update c name (some t) := by
  unfold executeCreateTable at h
  split at h
  · cases h
    exact .inl ⟨rfl, rfl⟩
  rename_i cols _
  split at h
  · cases h
    exact .inl ⟨rfl, rfl⟩
  split at h
  · cases h
    exact .inl ⟨rfl, rfl⟩
  obtain ⟨t, ht, hr⟩ := Option.map_eq_some_iff.mp h
  cases hr
  exact .inr ⟨cols, t, ht, rfl⟩

/-- **`ExecuteCreateIndex`** adds an index without entries to a table, or
changes nothing. -/
theorem executeCreateIndex_cases {name table : StdString} {columns : List StdString}
    (h : c.executeCreateIndex name table columns = (c', b)) :
    c' = c ∨ b = true ∧ ∃ t t' names, c table = some t ∧ t.createIndex name names = some t' ∧
      c' = Function.update c table (some t') := by
  unfold executeCreateIndex at h
  split at h
  · cases h
    exact .inl rfl
  rename_i t ht
  simp only at h
  split at h
  · split at h
    · cases h
      exact .inl rfl
    · rename_i t' ht'
      cases h
      exact .inr ⟨rfl, t, t', _, ht, ht', rfl⟩
  · cases h
    exact .inl rfl

/-- **A statement about rows** changes one table, or there is none. -/
theorem step_on_cases {table : StdString} {st : TableStatement}
    (h : c.step ids (.on table st) = some (c', b)) :
    c' = c ∨ ∃ t t', c table = some t ∧ t.step st = some (t', b) ∧
      c' = Function.update c table (some t') := by
  simp only [step] at h
  split at h
  · cases h
    exact .inl rfl
  rename_i t ht
  obtain ⟨⟨t', b'⟩, hstep, hr⟩ := Option.map_eq_some_iff.mp h
  cases hr
  exact .inr ⟨t, t', ht, hstep, rfl⟩

end Catalog

/-! ## Whole statements -/

/-- Every round of an update starts as the condition wants it. -/
def TableStatement.Meets (cond : Assignment → TableInfo → RowId → Prop) (t : TableInfo) :
    TableStatement → Prop
  | .update assignments selected rounds =>
    Loops.ForEach.Meets (TableInfo.updateRows selected rounds)
      (fun t a => match selected with
        | some rids => Loops.ForEach.Meets (TableInfo.updateRow a) (cond a) t rids
        | none =>
          Loops.Scan.Meets TableInfo.nextRow (TableInfo.updateRow a) (cond a) rounds t t.heap.begin)
      t assignments
  | _ => True

/-- What every round keeps is kept by `ExecuteUpdate`. -/
theorem TableInfo.executeUpdate_invariant {P : TableInfo → Prop}
    {cond : Assignment → TableInfo → RowId → Prop}
    (hup : ∀ t a rid t' b, P t → cond a t rid → updateRow a t rid = some (t', b) → P t')
    {t t' : TableInfo} {assignments : List Assignment} {selected : Option (List RowId)}
    {rounds : ℕ} {b : Bool} (ht : P t)
    (hmeets : (TableStatement.update assignments selected rounds).Meets cond t)
    (h : t.executeUpdate assignments selected rounds = some (t', b)) : P t' := by
  refine Loops.forEach_invariant ?_ ht hmeets h
  intro t a t' b ht hrounds h
  cases selected with
  | some rids => exact Loops.forEach_invariant (hup · a) ht hrounds h
  | none => exact Loops.scan_invariant (hup · a) ht hrounds h

/-- **What every round keeps is kept by every statement.** -/
theorem TableInfo.step_invariant {P : TableInfo → Prop}
    {cond : Assignment → TableInfo → RowId → Prop}
    (hins : ∀ t values t' b, P t → executeInsert t values = some (t', b) → P t')
    (hdel : ∀ t rid t' b, P t → deleteRow t rid = some (t', b) → P t')
    (hup : ∀ t a rid t' b, P t → cond a t rid → updateRow a t rid = some (t', b) → P t')
    {t t' : TableInfo} {st : TableStatement} {b : Bool} (ht : P t) (hmeets : st.Meets cond t)
    (h : t.step st = some (t', b)) : P t' := by
  have hdel' : ∀ t rid t' b, P t → True → deleteRow t rid = some (t', b) → P t' :=
    fun t rid t' b ht _ => hdel t rid t' b ht
  cases st with
  | insert values => exact hins t values t' b ht h
  | delete selected rounds =>
    cases selected with
    | some rids =>
      exact Loops.forEach_invariant hdel' ht
        (Loops.ForEach.meets_of_forall (fun _ _ => trivial) t rids) h
    | none =>
      exact Loops.scan_invariant hdel' ht
        (Loops.Scan.meets_of_forall (fun _ _ => trivial) rounds t _) h
  | update assignments selected rounds => exact executeUpdate_invariant hup ht hmeets h

end MiniSql
