import MiniSql.IndexRootsPage
import MiniSql.Machine
import MiniSql.StdMaps
import Mathlib.Data.Set.Card

/-!
# The page of the index roots as a map

`IndexRootsPage` lies on its page as a count and an array, of which the first
`count_` places are in use. An id is searched from the front; `Delete` closes
the gap by moving every later record one place down.

`IndexRootsArray` is this layout, with the loops of the source. The list of the
records that are in use makes it the `IndexRootsPage` that the catalog is
stated with (`insert_toPage` and its like, `delete_toPage` for the loop), and
on the page every id stands once, so that a sequence of calls is answered as by
a partial map from index ids to root ids (`run_of_meets`), as long as no record
is inserted into a full page.
-/

namespace MiniSql

/-! ## The layout -/

/-- `IndexRootsPage` as it lies on its page. -/
structure IndexRootsArray where
  /-- `count_` -/
  count : ℕ
  /-- `roots_`, also what lies behind the records in use. -/
  roots : ℕ → ℕ × PageId

namespace IndexRootsArray

open IndexRootsPage (maxIndexCount)

/-- `Init`: the records stay where they are. -/
def init (p : IndexRootsArray) : IndexRootsArray := { p with count := 0 }

/-- `FindIndex`. -/
def findIndex (p : IndexRootsArray) (indexId : ℕ) : Option ℕ :=
  (List.range p.count).find? (fun i => (p.roots i).1 = indexId)

/-- `Insert`, stuck where it would write behind the page. -/
def insert (p : IndexRootsArray) (indexId : ℕ) (rootId : PageId) :
    Option (IndexRootsArray × Bool) :=
  match p.findIndex indexId with
  | some _ => some (p, false)
  | none =>
    if p.count < maxIndexCount then
      some (⟨p.count + 1, Function.update p.roots p.count (indexId, rootId)⟩, true)
    else none

/-- The rounds of the loop of `Delete`, from the place `i`. -/
def moveDown (roots : ℕ → ℕ × PageId) (i : ℕ) : ℕ → ℕ → ℕ × PageId
  | 0 => roots
  | rounds + 1 => moveDown (Function.update roots i (roots (i + 1))) (i + 1) rounds

/-- `Delete`. -/
def delete (p : IndexRootsArray) (indexId : ℕ) : IndexRootsArray × Bool :=
  match p.findIndex indexId with
  | none => (p, false)
  | some index =>
    (⟨p.count - 1, moveDown p.roots index (p.count - 1 - index)⟩, true)

/-- `Update`. -/
def update (p : IndexRootsArray) (indexId : ℕ) (rootId : PageId) : IndexRootsArray × Bool :=
  match p.findIndex indexId with
  | none => (p, false)
  | some index =>
    (⟨p.count, Function.update p.roots index ((p.roots index).1, rootId)⟩, true)

/-- `GetRootId`: whether the id is there, and the root page id. -/
def getRootId (p : IndexRootsArray) (indexId : ℕ) : Bool × PageId :=
  match p.findIndex indexId with
  | none => (false, invalidPageId)
  | some index => (true, (p.roots index).2)

/-- What the loop of `Delete` leaves: the places it has walked over hold what
was one place further. -/
theorem moveDown_apply (roots : ℕ → ℕ × PageId) (i rounds j : ℕ) :
    moveDown roots i rounds j =
      if i ≤ j ∧ j < i + rounds then roots (j + 1) else roots j := by
  induction rounds generalizing roots i with
  | zero => exact (if_neg (by omega)).symm
  | succ rounds ih =>
    rw [moveDown, ih]
    by_cases hj : j = i
    · subst hj
      rw [if_neg (by omega), if_pos (by omega), Function.update_self]
    · rw [Function.update_of_ne hj]
      by_cases hwalked : i + 1 ≤ j ∧ j < i + 1 + rounds
      · rw [if_pos hwalked, if_pos (by omega), Function.update_of_ne (by omega)]
      · rw [if_neg hwalked, if_neg (by omega)]

/-! ## The records in use -/

/-- The page with the list of the records in use. -/
def toPage (p : IndexRootsArray) : IndexRootsPage := ⟨(List.range p.count).map p.roots⟩

variable {p : IndexRootsArray} {x : ℕ} {root : PageId}

theorem length_toPage : p.toPage.roots.length = p.count := by
  rw [toPage, List.length_map, List.length_range]

theorem getElem?_toPage {i : ℕ} (hi : i < p.count) : p.toPage.roots[i]? = some (p.roots i) := by
  rw [toPage, List.getElem?_map, List.getElem?_range hi, Option.map_some]

/-- A list is that of the records in use if it is so place by place. -/
theorem toPage_eq {count : ℕ} {roots : ℕ → ℕ × PageId} {q : IndexRootsPage}
    (hlen : q.roots.length = count) (h : ∀ i < count, q.roots[i]? = some (roots i)) :
    q = toPage ⟨count, roots⟩ := by
  obtain ⟨l⟩ := q
  have hlen' : l.length = count := hlen
  refine congrArg IndexRootsPage.mk (List.ext_getElem? (fun i => ?_))
  by_cases hi : i < count
  · rw [List.getElem?_map, List.getElem?_range hi]
    exact h i hi
  · rw [List.getElem?_eq_none (by omega),
      List.getElem?_eq_none (by rw [List.length_map, List.length_range]; exact Nat.le_of_not_lt hi)]

theorem findIndex_toPage : p.toPage.findIndex x = p.findIndex x := by
  unfold IndexRootsPage.findIndex findIndex toPage
  rw [List.findIdx?_map]
  refine Option.ext (fun i => ?_)
  rw [List.find?_range_eq_some, List.findIdx?_eq_some_iff_getElem]
  simp only [List.length_range, List.getElem_range, Function.comp_apply, List.mem_range]
  constructor
  · rintro ⟨hi, hx, hbefore⟩
    exact ⟨hx, hi, fun j hj => by simpa using hbefore j hj⟩
  · rintro ⟨hx, hi, hbefore⟩
    exact ⟨hi, hx, fun j hj => by simpa using hbefore j hj⟩

theorem lt_of_findIndex {i : ℕ} (h : p.findIndex x = some i) : i < p.count :=
  List.mem_range.mp (List.mem_of_find?_eq_some h)

theorem insert_toPage : p.toPage.insert x root = (p.insert x root).map (Prod.map toPage id) := by
  unfold IndexRootsPage.insert insert
  rw [findIndex_toPage, length_toPage]
  cases p.findIndex x with
  | some _ => rfl
  | none =>
    by_cases hroom : p.count < maxIndexCount
    · rw [if_pos hroom, if_pos hroom]
      refine congrArg (fun q => some (q, true)) (toPage_eq ?_ (fun i hi => ?_))
      · rw [List.length_append, length_toPage, List.length_singleton]
      · by_cases hlast : i = p.count
        · rw [hlast, Function.update_self, List.getElem?_append_right length_toPage.le,
            length_toPage, Nat.sub_self, List.getElem?_cons_zero]
        · rw [Function.update_of_ne hlast,
            List.getElem?_append_left (by rw [length_toPage]; omega),
            getElem?_toPage (by omega)]
    · rw [if_neg hroom, if_neg hroom]
      rfl

/-- **What the loop of `Delete` does**: the record that has been found is
taken out, and the others keep their order. -/
theorem delete_toPage : p.toPage.delete x = Prod.map toPage id (p.delete x) := by
  unfold IndexRootsPage.delete delete
  rw [findIndex_toPage]
  cases h : p.findIndex x with
  | none => rfl
  | some index =>
    have hindex := lt_of_findIndex h
    refine congrArg (fun q => (q, true)) (toPage_eq ?_ (fun i hi => ?_))
    · rw [List.length_eraseIdx, length_toPage, if_pos hindex]
    · rw [List.getElem?_eraseIdx, moveDown_apply]
      by_cases hbefore : i < index
      · rw [if_pos hbefore, if_neg (by omega), getElem?_toPage (by omega)]
      · rw [if_neg hbefore, if_pos (by omega), getElem?_toPage (by omega)]

theorem update_toPage : p.toPage.update x root = Prod.map toPage id (p.update x root) := by
  unfold IndexRootsPage.update update
  rw [findIndex_toPage]
  cases h : p.findIndex x with
  | none => rfl
  | some index =>
    refine congrArg (fun q => (q, true)) (toPage_eq ?_ (fun i hi => ?_))
    · rw [List.length_modify, length_toPage]
    · rw [List.getElem?_modify, getElem?_toPage hi, Option.map_eq_map, Option.map_some]
      by_cases hindex : index = i
      · rw [if_pos hindex, ← hindex, Function.update_self]
      · rw [if_neg hindex, Function.update_of_ne (Ne.symm hindex)]

theorem getRootId_toPage : p.toPage.getRootId x = p.getRootId x := by
  unfold IndexRootsPage.getRootId getRootId
  rw [findIndex_toPage]
  cases h : p.findIndex x with
  | none => rfl
  | some index =>
    rw [Option.bind_some, getElem?_toPage (lt_of_findIndex h)]

end IndexRootsArray

/-! ## The records as a map -/

namespace IndexRootsPage

/-- **The records are those of a map**: every id stands once, and with the root
id that the map has for it. -/
structure Records (p : IndexRootsPage) (m : UnorderedMap ℕ PageId) : Prop where
  /-- No id stands twice. -/
  nodup : (p.roots.map Prod.fst).Nodup
  /-- What is recorded is what the map has. -/
  recorded : ∀ x, p.recorded x = m x

variable {p p' : IndexRootsPage} {m : UnorderedMap ℕ PageId} {x : ℕ} {root : PageId}

theorem records_nil : Records ⟨[]⟩ UnorderedMap.empty := ⟨List.nodup_nil, fun _ => rfl⟩

/-- An id is found exactly if the map has it. -/
theorem Records.isSome_findIndex (h : p.Records m) : (p.findIndex x).isSome = (m x).isSome := by
  rw [← h.recorded x, Bool.eq_iff_iff, Option.isSome_iff_ne_none, Option.isSome_iff_ne_none]
  exact not_congr findIndex_eq_none

theorem Records.insert (h : p.Records m) (root : PageId)
    (hroom : m x = none → p.roots.length < maxIndexCount) :
    ∃ p', p.insert x root = some (p', (m x).isNone) ∧ p'.Records (m.emplace x root) := by
  cases hx : m x with
  | some r =>
    have hne : p.recorded x ≠ none := by
      rw [h.recorded, hx]
      exact Option.some_ne_none r
    refine ⟨p, insert_of_recorded hne, ?_⟩
    rw [UnorderedMap.emplace, hx, Option.isSome_some, if_pos rfl]
    exact h
  | none =>
    have hnone : p.recorded x = none := (h.recorded x).trans hx
    have hinsert : p.insert x root = some (⟨p.roots ++ [(x, root)]⟩, true) := by
      rw [IndexRootsPage.insert, findIndex_eq_none.mpr hnone]
      exact if_pos (hroom hx)
    obtain ⟨hself, hother⟩ := recorded_insert hnone hinsert
    refine ⟨_, hinsert, ?_, fun y => ?_⟩
    · rw [List.map_append]
      refine h.nodup.append (List.nodup_singleton x) (List.disjoint_singleton.mpr (fun hmem => ?_))
      obtain ⟨e, he, hex⟩ := List.mem_map.mp hmem
      have hfind := List.find?_eq_none.mp (Option.map_eq_none_iff.mp hnone) e he
      exact hfind (decide_eq_true hex)
    · rw [UnorderedMap.emplace, hx, Option.isSome_none, if_neg Bool.false_ne_true]
      by_cases hy : y = x
      · rw [hy, hself, Function.update_self]
      · rw [hother y hy, Function.update_of_ne hy, h.recorded]

theorem Records.update (h : p.Records m) (x : ℕ) (root : PageId) :
    (p.update x root).2 = (m x).isSome ∧
      (p.update x root).1.Records
        (if (m x).isSome then Function.update m x (some root) else m) := by
  refine ⟨?_, ids_update (p := p) (x := x) ▸ h.nodup, fun y => ?_⟩
  · rw [← h.isSome_findIndex, IndexRootsPage.update]
    cases p.findIndex x <;> rfl
  · cases hx : m x with
    | none => rw [update_of_not_recorded ((h.recorded x).trans hx), h.recorded]; rfl
    | some r =>
      have hne : p.recorded x ≠ none := by
        rw [h.recorded, hx]
        exact Option.some_ne_none r
      rw [Option.isSome_some, if_pos rfl]
      by_cases hy : y = x
      · rw [hy, (recorded_update hne).1, Function.update_self]
      · rw [(recorded_update hne).2 y hy, Function.update_of_ne hy, h.recorded]

theorem Records.delete (h : p.Records m) :
    (p.delete x).2 = (m x).isSome ∧ (p.delete x).1.Records (m.erase x) := by
  refine ⟨?_, ids_delete.nodup h.nodup, fun y => ?_⟩
  · rw [← h.isSome_findIndex, IndexRootsPage.delete]
    cases p.findIndex x <;> rfl
  · obtain ⟨hself, hother⟩ := recorded_delete (x := x) h.nodup
    rw [UnorderedMap.erase]
    by_cases hy : y = x
    · rw [hy, hself, Function.update_self]
    · rw [hother y hy, Function.update_of_ne hy, h.recorded]

theorem Records.getRootId (h : p.Records m) :
    p.getRootId x = ((m x).isSome, (m x).getD invalidPageId) := by
  rw [getRootId_eq_recorded, h.recorded]

/-! ## Calls -/

/-- A call of the page. -/
inductive Call
  | insert (indexId : ℕ) (rootId : PageId)
  | delete (indexId : ℕ)
  | update (indexId : ℕ) (rootId : PageId)
  | getRootId (indexId : ℕ)

/-- What a call returns, and what it stores at `root_id`. -/
inductive Answer
  | done (success : Bool)
  | root (success : Bool) (rootId : PageId)
deriving DecidableEq

/-- **The map** that the page stands for: it answers every call. -/
def mapStep (m : UnorderedMap ℕ PageId) : Call → UnorderedMap ℕ PageId × Answer
  | .insert x root => (m.emplace x root, .done (m x).isNone)
  | .delete x => (m.erase x, .done (m x).isSome)
  | .update x root =>
    (if (m x).isSome then Function.update m x (some root) else m, .done (m x).isSome)
  | .getRootId x => (m, .root (m x).isSome ((m x).getD invalidPageId))

end IndexRootsPage

namespace IndexRootsArray

open IndexRootsPage (maxIndexCount Call Answer mapStep)

/-- One call. -/
def step (p : IndexRootsArray) : Call → Option (IndexRootsArray × Answer)
  | .insert x root => (p.insert x root).map (Prod.map id .done)
  | .delete x => some (Prod.map id .done (p.delete x))
  | .update x root => some (Prod.map id .done (p.update x root))
  | .getRootId x => some (p, .root (p.getRootId x).1 (p.getRootId x).2)

/-- There is room for what the call inserts. -/
def HasRoom (p : IndexRootsArray) : Call → Prop
  | .insert x _ => p.findIndex x = none → p.count < maxIndexCount
  | _ => True

instance (p : IndexRootsArray) : ∀ i, Decidable (p.HasRoom i)
  | .insert x _ =>
    inferInstanceAs (Decidable (p.findIndex x = none → p.count < maxIndexCount))
  | .delete _ => inferInstanceAs (Decidable True)
  | .update _ _ => inferInstanceAs (Decidable True)
  | .getRootId _ => inferInstanceAs (Decidable True)

/-- **The page represents a map**: every id of the map stands in one of the
places in use with its root id, and in no other, and nothing else stands
there. -/
structure Represents (p : IndexRootsArray) (m : UnorderedMap ℕ PageId) : Prop where
  /-- No id stands in two places. -/
  distinct : ∀ i < p.count, ∀ j < p.count, (p.roots i).1 = (p.roots j).1 → i = j
  /-- What the map has stands there, and nothing else. -/
  bound : ∀ x root, m x = some root ↔ ∃ i < p.count, p.roots i = (x, root)
  /-- `count_` is the number of ids that the map has. -/
  count : p.count = {x | m x ≠ none}.ncard

variable {p : IndexRootsArray} {m : UnorderedMap ℕ PageId}

/-- What the list of the records says, said of the places. -/
theorem represents_of_records (h : p.toPage.Records m) : p.Represents m := by
  have hids : p.toPage.roots.map Prod.fst = (List.range p.count).map (fun i => (p.roots i).1) := by
    rw [toPage, List.map_map]
    rfl
  have hnodup := h.nodup
  rw [hids] at hnodup
  have hdistinct : ∀ i < p.count, ∀ j < p.count, (p.roots i).1 = (p.roots j).1 → i = j :=
    fun i hi j hj => List.inj_on_of_nodup_map hnodup (List.mem_range.mpr hi) (List.mem_range.mpr hj)
  have hbound : ∀ x root, m x = some root ↔ ∃ i < p.count, p.roots i = (x, root) := by
    intro x root
    rw [← h.recorded x, IndexRootsPage.recorded_eq_some_iff h.nodup, toPage, List.mem_map]
    simp only [List.mem_range]
  refine ⟨hdistinct, hbound, ?_⟩
  have hids : {x | m x ≠ none} = (fun i => (p.roots i).1) '' Finset.range p.count := by
    ext x
    simp only [Set.mem_ofPred_eq, Set.mem_image, Finset.mem_coe, Finset.mem_range,
      Option.ne_none_iff_exists', hbound]
    constructor
    · rintro ⟨root, i, hi, hroots⟩
      exact ⟨i, hi, congrArg Prod.fst hroots⟩
    · rintro ⟨i, hi, rfl⟩
      exact ⟨(p.roots i).2, i, hi, rfl⟩
  have hinj : Set.InjOn (fun i => (p.roots i).1) (Finset.range p.count) := fun i hi j hj =>
    hdistinct i (Finset.mem_range.mp hi) j (Finset.mem_range.mp hj)
  rw [hids, hinj.ncard_image, Set.ncard_coe_finset, Finset.card_range]

/-- Every call for which there is room is answered as by the map. -/
theorem step_of_records (h : p.toPage.Records m) (i : Call) (hroom : p.HasRoom i) :
    ∃ p', p.step i = some (p', (mapStep m i).2) ∧ p'.toPage.Records (mapStep m i).1 := by
  cases i with
  | insert x root =>
    have hlen : m x = none → p.toPage.roots.length < maxIndexCount := by
      intro hx
      rw [length_toPage]
      refine hroom ?_
      rw [← findIndex_toPage, IndexRootsPage.findIndex_eq_none, h.recorded, hx]
    obtain ⟨q, hinsert, hq⟩ := h.insert root hlen
    rw [insert_toPage, Option.map_eq_some_iff] at hinsert
    obtain ⟨⟨p', b⟩, hp', heq⟩ := hinsert
    obtain ⟨rfl, rfl⟩ := Prod.mk.inj heq
    exact ⟨p', by rw [step, hp']; rfl, hq⟩
  | delete x =>
    obtain ⟨hanswer, hq⟩ := h.delete (x := x)
    rw [delete_toPage] at hanswer hq
    exact ⟨_, by rw [step, mapStep, ← hanswer]; rfl, hq⟩
  | update x root =>
    obtain ⟨hanswer, hq⟩ := h.update x root
    rw [update_toPage] at hanswer hq
    exact ⟨_, by rw [step, mapStep, ← hanswer]; rfl, hq⟩
  | getRootId x =>
    have hanswer := h.getRootId (x := x)
    rw [getRootId_toPage] at hanswer
    exact ⟨p, by rw [step, hanswer]; rfl, h⟩

/-- **The page is a finite map.** On an initialised page, every sequence of
calls that never inserts into a full page is answered as by the map that starts
without entries, and leaves the page to represent this map. -/
theorem run_of_meets {p : IndexRootsArray} {calls : List Call}
    (hm : Machine.Meets step HasRoom p.init calls) :
    ∃ p', Machine.run step p.init calls =
        some (p', Machine.answers mapStep UnorderedMap.empty calls) ∧
      p'.Represents (Machine.final mapStep UnorderedMap.empty calls) := by
  obtain ⟨p', hrun, hp'⟩ := Machine.run_of_simulation
    (R := fun p m => p.toPage.Records m) (fun _ _ i h hroom => step_of_records h i hroom)
    (show p.init.toPage.Records UnorderedMap.empty from IndexRootsPage.records_nil) hm
  exact ⟨p', hrun, represents_of_records hp'⟩

/-- The calls that insert `7`, `3` and `9`, move the root of `3`, insert `7`
again, delete `7` and look up the three. -/
def callsOfThreeIndexes : List Call :=
  [.insert 7 70, .insert 3 30, .insert 9 90, .update 3 33, .insert 7 71, .delete 7,
    .getRootId 7, .getRootId 3, .getRootId 9]

/-- They are answered on a page with other numbers on it. -/
theorem run_of_meets_threeIndexes :
    ∃ p', Machine.run step (init ⟨5, fun i => (i, 1)⟩) callsOfThreeIndexes =
        some (p', [.done true, .done true, .done true, .done true, .done false, .done true,
          .root false invalidPageId, .root true 33, .root true 90]) ∧
      p'.Represents (Machine.final mapStep UnorderedMap.empty callsOfThreeIndexes) :=
  run_of_meets (p := ⟨5, fun i => (i, 1)⟩) (by decide)

end IndexRootsArray

end MiniSql
