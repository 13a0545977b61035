import MiniSql.IndexConsistency
import MiniSql.SelectWhere

/-!
# Deletions

`ExecuteDelete` on the tree of a `delete` with conditions. The row ids are all collected
before the first row is deleted, so that the conditions are not evaluated on a table that
changes. Where they select the rows that satisfy them, exactly these rows are gone afterwards,
and indexes that agree with the heap still do (`executeDelete_delete`).
-/

namespace MiniSql

namespace TableInfo

variable {t t' : TableInfo} {rid : RowId} {row : List Field} {rids : List RowId} {b : Bool}

/-- Every row has a key for every index: its fields do not take up more than a key has room
for. -/
def Keyed (t : TableInfo) : Prop :=
  ∀ I ∈ t.indexes, ∀ rid row, t.heap.live rid = some row → ∃ k, I.key row = some k

theorem Keyed.deleteRow (hwf : t.heap.WellFormed t.ids) (ht : t.Keyed)
    (h : t.deleteRow rid = some (t', b)) : t'.Keyed := by
  obtain ⟨row, -, hdrop⟩ := deleteRow_cases hwf h
  refine hdrop.forall_indexes (P := fun key live _ => ∀ rid row, live rid = some row →
    ∃ k, key row = some k) fun I hI c _ rid' row' hlive => ?_
  by_cases hsame : rid' = rid
  · rw [hsame, Function.update_self] at hlive
    cases hlive
  · rw [Function.update_of_ne hsame] at hlive
    exact ht I hI rid' row' hlive

/-- **A round of the deletion** of a row that is there does not get stuck. -/
theorem exists_deleteRow (hwf : t.heap.WellFormed t.ids) (ht : t.Keyed)
    (hlive : t.heap.live rid = some row) : ∃ t', t.deleteRow rid = some (t', true) := by
  obtain ⟨p, hp, hslot⟩ := Option.bind_eq_some_iff.mp hlive
  have hid : rid ≠ invalidRowId := hwf.ne_invalid (List.mem_of_find?_eq_some hp)
    (TableHeap.pageId_of_fetchPage hp)
  have hget : t.heap.getTuple rid = some (some row) := by
    rw [TableHeap.getTuple, if_neg hid, hp, Option.map_some, hslot]
  have hkeys : ∀ I ∈ t.indexes, ∃ I', IndexInfo.removeRow row I = some I' := by
    intro I hI
    obtain ⟨k, hk⟩ := ht I hI rid row hlive
    exact ⟨I.removeEntry k, by rw [IndexInfo.removeRow, hk, Option.map_some]⟩
  obtain ⟨indexes, hindexes, -⟩ := Parser.exists_mapM hkeys
  have hdelete : t.heap.applyDelete rid =
      some (t.heap.setSlots rid.pageId (p.slots.set rid.slotNum .free)) := by
    unfold TableHeap.applyDelete SlotMap.applyDelete
    rw [hp]
    simp only [TableHeap.getTuple_eq_some.mp hslot, Option.map_some]
  refine ⟨{ t with
    heap := t.heap.setSlots rid.pageId (p.slots.set rid.slotNum .free)
    indexes := indexes }, ?_⟩
  unfold deleteRow
  simp only [hget, hindexes, hdelete]

/-- **The loop over the row ids** deletes these rows and no others. -/
theorem exists_deleteRows (hwf : t.heap.WellFormed t.ids) (ht : t.Keyed) (hnodup : rids.Nodup)
    (hlive : ∀ rid ∈ rids, ∃ row, t.heap.live rid = some row) :
    ∃ t', Loops.forEach deleteRow t rids = some (t', true) ∧ t'.SameColumns t ∧
      (t.Consistent → t'.Consistent) ∧
        ∀ rid, t'.heap.live rid = if rid ∈ rids then none else t.heap.live rid := by
  induction rids generalizing t with
  | nil =>
    exact ⟨t, rfl, ⟨rfl, rfl⟩, id, fun rid => (if_neg List.not_mem_nil).symm⟩
  | cons rid rids ih =>
    obtain ⟨hnot, hnodup'⟩ := List.nodup_cons.mp hnodup
    obtain ⟨row, hrow⟩ := hlive rid List.mem_cons_self
    obtain ⟨t₁, hstep⟩ := exists_deleteRow hwf ht hrow
    obtain ⟨row', -, hdrop⟩ := deleteRow_cases hwf hstep
    have hlive₁ : ∀ rid' ∈ rids, ∃ row, t₁.heap.live rid' = some row := by
      intro rid' hrid'
      have hne : rid' ≠ rid := fun h => hnot (h ▸ hrid')
      rw [hdrop.live, Function.update_of_ne hne]
      exact hlive rid' (List.mem_cons_of_mem _ hrid')
    obtain ⟨t', hrun, hsame, hkeeps, hrows⟩ :=
      ih hdrop.wellFormed (ht.deleteRow hwf hstep) hnodup' hlive₁
    refine ⟨t', ?_, hsame.trans hdrop.sameColumns, fun hc => hkeeps (hc.deleteRow hstep), ?_⟩
    · rw [Loops.forEach, hstep]
      exact hrun
    · intro rid'
      rw [hrows rid', hdrop.live]
      by_cases heq : rid' = rid
      · rw [heq, if_pos List.mem_cons_self, Function.update_self, ite_self]
      · simp only [List.mem_cons, heq, false_or, Function.update_of_ne heq]

end TableInfo

namespace Parser

open MiniSql.Parser.SyntaxNode

variable {Key : Type}

/-- `ExecuteDelete`, with the table found. -/
def executeDelete (cmp : Comparing Key) (t : TableInfo) (rounds : ℕ) (ast : SyntaxNode) :
    Option (TableInfo × Bool) :=
  match ast.child.next with
  | .null => t.executeDelete none rounds
  | .node _ _ child _ => do
    let (context, success) ← executeInternalNodeOn cmp t rounds child ⟨[], ∅⟩
    if success then t.executeDelete (some (inOrder context.internalResultRid)) rounds
    else return (t, false)

variable {cmp : Comparing Key} {t : TableInfo} {cs : Conditions}

/-- **A `delete` deletes the rows that satisfy its conditions** and no others, if the
conditions select these rows; it does not get stuck, and the indexes still agree with the heap
if they did. -/
theorem executeDelete_delete {meets : Comparison → List Field → Prop} (n : StdString)
    (hwf : t.heap.WellFormed t.ids) (ht : t.Keyed) (hwhere : WhereSelects cmp t meets cs) :
    ∃ t', t'.SameColumns t ∧ (t.Consistent → t'.Consistent) ∧
      (∀ rid row, t'.heap.live rid = some row ↔
        t.heap.live rid = some row ∧ ¬ cs.Holds meets row) ∧
      ∃ m, ∀ rounds, m ≤ rounds →
        executeDelete cmp t rounds (Command.delete n (some cs)).node = some (t', true) := by
  obtain ⟨m, found, hrun, hfound⟩ := hwhere
  have hrows : ∀ rid ∈ inOrder found, ∃ row, t.heap.live rid = some row := by
    intro rid hrid
    obtain ⟨row, hrow, -⟩ := (hfound rid).mp ((Finset.mem_sort _).mp hrid)
    exact ⟨row, hrow⟩
  have hnodup : (inOrder found).Nodup := Finset.sort_nodup found (· ≤ ·)
  obtain ⟨t', hloop, hsame, hkeeps, hlive⟩ := TableInfo.exists_deleteRows hwf ht hnodup hrows
  refine ⟨t', hsame, hkeeps, fun rid row => ?_, m, fun rounds hrounds => ?_⟩
  · have hmem : rid ∈ inOrder found ↔ ∃ row, t.heap.live rid = some row ∧ cs.Holds meets row :=
      (Finset.mem_sort _).trans (hfound rid)
    rw [hlive rid]
    by_cases hrid : rid ∈ inOrder found
    · obtain ⟨row', hrow', hholds⟩ := hmem.mp hrid
      rw [if_pos hrid]
      refine ⟨fun h => (by cases h), ?_⟩
      rintro ⟨hrow, hnot⟩
      cases hrow'.symm.trans hrow
      exact absurd hholds hnot
    · rw [if_neg hrid]
      exact ⟨fun hrow => ⟨hrow, fun hholds => hrid (hmem.mpr ⟨row, hrow, hholds⟩)⟩, And.left⟩
  · obtain ⟨type, val, child, hnode⟩ := cs.exists_node
    have hcs := hrun rounds hrounds ⟨[], ∅⟩
    rw [hnode] at hcs
    have htree : (Command.delete n (some cs)).node = .node .delete none
        (.node .identifier (name n).val .null
          (.node .conditions none (.node type val child .null) .null)) .null := by
      rw [Command.node, Command.whereNodes, hnode]
      rfl
    rw [htree, executeDelete]
    change (executeInternalNodeOn cmp t rounds (.node type val child .null) ⟨[], ∅⟩).bind _ = _
    rw [hcs]
    exact hloop

section Example

/-- `delete from t where c = 5` leaves the other row. -/
theorem executeDelete_delete_five :
    ∃ t', t'.SameColumns twoNumbers ∧ (twoNumbers.Consistent → t'.Consistent) ∧
      (∀ rid row, t'.heap.live rid = some row ↔ twoNumbers.heap.live rid = some row ∧
        ¬ (Conditions.one ⟨[99], .equal, .number [53]⟩).Holds
          (Comparison.HoldsOf digit numberSchema) row) ∧
      ∃ m, ∀ rounds, m ≤ rounds → executeDelete comparesDigits twoNumbers rounds
        (Command.delete [116] (some (.one ⟨[99], .equal, .number [53]⟩))).node =
          some (t', true) :=
  executeDelete_delete [116] twoNumbers_wellFormed (fun _ h => absurd h List.not_mem_nil)
    whereSelects_five

end Example

end Parser

end MiniSql
