import MiniSql.Config
import Mathlib.Data.List.Nodup

/-!
# The page of the index roots

`IndexRootsPage` of `page/index_roots_page.cpp`: the root page ids of the
indexes, by index id. `Insert` refuses an id that is there and `Update` one
that is not. `Insert` does not look at the size of the page, and gets stuck
where it writes beyond it.
-/

namespace MiniSql

/-- `IndexRootsPage`: the first `count_` entries of `roots_`. -/
structure IndexRootsPage where
  /-- `roots_` -/
  roots : List (ℕ × PageId)
deriving DecidableEq

namespace IndexRootsPage

/-- `MAX_INDEX_COUNT`. -/
def maxIndexCount : ℕ := (pageSize - 4) / 8

/-- `FindIndex`. -/
def findIndex (p : IndexRootsPage) (indexId : ℕ) : Option ℕ :=
  p.roots.findIdx? (fun e => e.1 = indexId)

/-- `Insert`. -/
def insert (p : IndexRootsPage) (indexId : ℕ) (rootId : PageId) :
    Option (IndexRootsPage × Bool) :=
  match p.findIndex indexId with
  | some _ => some (p, false)
  | none =>
    if p.roots.length < maxIndexCount then some (⟨p.roots ++ [(indexId, rootId)]⟩, true) else none

/-- `Delete`, by its effect: the loop moves every later record one place
down. -/
def delete (p : IndexRootsPage) (indexId : ℕ) : IndexRootsPage × Bool :=
  match p.findIndex indexId with
  | none => (p, false)
  | some index => (⟨p.roots.eraseIdx index⟩, true)

/-- `Update`. -/
def update (p : IndexRootsPage) (indexId : ℕ) (rootId : PageId) : IndexRootsPage × Bool :=
  match p.findIndex indexId with
  | none => (p, false)
  | some index => (⟨p.roots.modify index (fun e => (e.1, rootId))⟩, true)

/-- `GetRootId`: whether the id is there, and the root page id. -/
def getRootId (p : IndexRootsPage) (indexId : ℕ) : Bool × PageId :=
  match (p.findIndex indexId).bind (p.roots[·]?) with
  | none => (false, invalidPageId)
  | some e => (true, e.2)

/-! ## What is recorded -/

/-- What the page records for an index. -/
def recorded (p : IndexRootsPage) (indexId : ℕ) : Option PageId :=
  (p.roots.find? (fun e => e.1 = indexId)).map Prod.snd

variable {p p' : IndexRootsPage} {x y : ℕ} {root : PageId}

theorem findIndex_eq_none : p.findIndex x = none ↔ p.recorded x = none := by
  rw [findIndex, recorded, List.findIdx?_eq_none_iff, Option.map_eq_none_iff, List.find?_eq_none]
  simp

theorem exists_of_recorded (h : p.recorded x ≠ none) : ∃ e ∈ p.roots, e.1 = x := by
  unfold recorded at h
  rw [Ne, Option.map_eq_none_iff, List.find?_eq_none] at h
  simpa using h

/-- Where no id stands twice, what is recorded are the records. -/
theorem recorded_eq_some_iff (hnodup : (p.roots.map Prod.fst).Nodup) :
    p.recorded x = some root ↔ (x, root) ∈ p.roots := by
  rw [recorded, Option.map_eq_some_iff]
  constructor
  · rintro ⟨e, he, rfl⟩
    have hid : e.1 = x := by simpa using List.find?_some he
    exact hid ▸ List.mem_of_find?_eq_some he
  · intro hmem
    obtain ⟨e, he⟩ : ∃ e, p.roots.find? (fun e => e.1 = x) = some e :=
      Option.isSome_iff_exists.mp (List.find?_isSome.mpr ⟨_, hmem, by simp⟩)
    have hid : e.1 = x := by simpa using List.find?_some he
    obtain rfl := List.inj_on_of_nodup_map hnodup (List.mem_of_find?_eq_some he) hmem hid
    exact ⟨_, he, rfl⟩

theorem getRootId_eq_recorded :
    p.getRootId x = ((p.recorded x).isSome, (p.recorded x).getD invalidPageId) := by
  unfold getRootId findIndex recorded
  rw [← List.find?_eq_bind_findIdx?_getElem?]
  cases p.roots.find? (fun e => e.1 = x) <;> rfl

theorem getRootId_eq : (p.getRootId x).2 = (p.recorded x).getD invalidPageId :=
  congrArg Prod.snd getRootId_eq_recorded

/-- A new id is recorded, and the others are as they were. -/
theorem recorded_insert (h : p.recorded x = none) {b : Bool}
    (hp : p.insert x root = some (p', b)) :
    p'.recorded x = some root ∧ ∀ y ≠ x, p'.recorded y = p.recorded y := by
  have hfind : p.roots.find? (fun e => e.1 = x) = none := Option.map_eq_none_iff.mp h
  rw [insert, findIndex_eq_none.mpr h] at hp
  obtain ⟨-, hp⟩ := Option.ite_none_right_eq_some.mp hp
  cases hp
  refine ⟨?_, fun y hy => ?_⟩
  · rw [recorded, List.find?_append, hfind]
    simp
  · have hnew : [(x, root)].find? (fun e => e.1 = y) = none := by
      simp [Ne.symm hy]
    rw [recorded, List.find?_append, hnew, Option.or_none, recorded]

/-- An id that is there is not inserted. -/
theorem insert_of_recorded (h : p.recorded x ≠ none) : p.insert x root = some (p, false) := by
  unfold insert
  cases hx : p.findIndex x with
  | none => exact absurd (findIndex_eq_none.mp hx) h
  | some _ => rfl

/-- The entry of an id stands behind entries of other ids, and is changed or
taken out alone. -/
theorem exists_entry {i : ℕ} (h : p.findIndex x = some i) (f : ℕ × PageId → ℕ × PageId) :
    ∃ before e after, p.roots = before ++ e :: after ∧
      p.roots.modify i f = before ++ f e :: after ∧ p.roots.eraseIdx i = before ++ after ∧
      e.1 = x ∧ ∀ a ∈ before, a.1 ≠ x := by
  obtain ⟨hi, hx, hbefore⟩ := List.findIdx?_eq_some_iff_getElem.mp h
  refine ⟨p.roots.take i, p.roots[i], p.roots.drop (i + 1), ?_,
    List.modify_eq_take_cons_drop hi, List.eraseIdx_eq_take_drop_succ .., of_decide_eq_true hx,
    ?_⟩
  · rw [List.getElem_cons_drop, List.take_append_drop]
  · intro a ha hax
    obtain ⟨j, hj, rfl⟩ := List.getElem_of_mem ha
    rw [List.length_take] at hj
    rw [List.getElem_take] at hax
    exact hbefore j (by omega) (decide_eq_true hax)

/-- An id that is there gets the root, and the others are as they were. -/
theorem recorded_update (h : p.recorded x ≠ none) :
    (p.update x root).1.recorded x = some root ∧
      ∀ y ≠ x, (p.update x root).1.recorded y = p.recorded y := by
  unfold update
  cases hx : p.findIndex x with
  | none => exact absurd (findIndex_eq_none.mp hx) h
  | some i =>
    obtain ⟨before, e, after, hsplit, hmodify, -, rfl, hbefore⟩ :=
      exists_entry hx (fun e => (e.1, root))
    have hnone : before.find? (fun a => decide (a.1 = e.1)) = none :=
      List.find?_eq_none.mpr (fun a ha => by simpa using hbefore a ha)
    refine ⟨?_, fun y hy => ?_⟩
    · show (List.find? _ (p.roots.modify i _)).map Prod.snd = _
      rw [hmodify, List.find?_append, hnone]
      simp
    · show (List.find? _ (p.roots.modify i _)).map Prod.snd = _
      rw [hmodify, recorded, hsplit, List.find?_append, List.find?_append,
        List.find?_cons_of_neg (by simpa using Ne.symm hy),
        List.find?_cons_of_neg (by simpa using Ne.symm hy)]

/-- An id that is not there is not updated. -/
theorem update_of_not_recorded (h : p.recorded x = none) : (p.update x root).1 = p := by
  rw [update, findIndex_eq_none.mpr h]

/-- The entries of other ids are as they were. -/
theorem recorded_update_of_ne (hy : y ≠ x) : (p.update x root).1.recorded y = p.recorded y := by
  by_cases h : p.recorded x = none
  · rw [update_of_not_recorded h]
  · exact (recorded_update h).2 y hy

/-- The ids stay where they are. -/
theorem ids_update : (p.update x root).1.roots.map Prod.fst = p.roots.map Prod.fst := by
  unfold update
  cases h : p.findIndex x with
  | none => rfl
  | some i =>
    obtain ⟨before, e, after, hsplit, hmodify, -⟩ := exists_entry h (fun e => (e.1, root))
    show (p.roots.modify i _).map Prod.fst = _
    rw [hmodify, hsplit, List.map_append, List.map_append]
    rfl

/-- Where no id stands twice, a deleted one is not recorded any more, and the
others are as they were. -/
theorem recorded_delete (hnodup : (p.roots.map Prod.fst).Nodup) :
    (p.delete x).1.recorded x = none ∧
      ∀ y ≠ x, (p.delete x).1.recorded y = p.recorded y := by
  unfold delete
  cases hx : p.findIndex x with
  | none => exact ⟨findIndex_eq_none.mp hx, fun _ _ => rfl⟩
  | some i =>
    obtain ⟨before, e, after, hsplit, -, herase, rfl, hbefore⟩ := exists_entry hx id
    rw [hsplit, List.map_append, List.map_cons, List.nodup_middle, List.nodup_cons] at hnodup
    refine ⟨?_, fun y hy => ?_⟩
    · refine Option.map_eq_none_iff.mpr (List.find?_eq_none.mpr (fun a ha => ?_))
      have hmem : a ∈ before ++ after := herase ▸ ha
      rw [decide_eq_true_iff]
      intro hae
      refine hnodup.1 ?_
      rw [← hae, ← List.map_append]
      exact List.mem_map_of_mem hmem
    · show (List.find? _ (p.roots.eraseIdx i)).map Prod.snd = _
      rw [herase, recorded, hsplit, List.find?_append, List.find?_append,
        List.find?_cons_of_neg (by simpa using Ne.symm hy)]

/-- Deleting takes no id twice. -/
theorem ids_delete : ((p.delete x).1.roots.map Prod.fst).Sublist (p.roots.map Prod.fst) := by
  unfold delete
  cases p.findIndex x with
  | none => exact List.Sublist.refl _
  | some i => exact (List.eraseIdx_sublist p.roots i).map Prod.fst

end IndexRootsPage

end MiniSql
